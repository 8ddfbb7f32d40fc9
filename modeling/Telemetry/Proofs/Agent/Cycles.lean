import Mathlib.Algebra.BigOperators.Group.List.Basic
import Mathlib.Algebra.Group.Int.Defs
import Telemetry.Agent.Sender
import Telemetry.Proofs.Agent.PoolSteps
import Telemetry.Proofs.Agent.Totals
import Telemetry.Proofs.Collector.Polls

/-!
What cycles add up to. A cycle reports each counter with its whole value, and the server adds what is
reported. So however polls, cycles and deliveries follow one another, the total at the server is the sum
of what the counter was in all cycles, and not what it was in the last one.
-/
namespace Telemetry

namespace Agent

def Carrier.isPlainCall : Carrier → Bool
  | .http _ _ => false
  | .rpc client _ => client.publicKey.isNone

theorem reaches_of_isPlainCall {c : Carrier} {s : Server} (hs : s.subnet = none) (hc : c.isPlainCall)
    (job : Job) : c.Reaches s job := by
  have htrusts : ∀ client, s.Trusts client := by
    intro client subnet h
    cases hs.symm.trans h
  cases c with
  | http client trace => cases hc
  | rpc client seeds =>
    refine ⟨htrusts _, fun key hkey => ?_⟩
    rw [Carrier.isPlainCall, hkey] at hc
    cases hc

/-- An agent at work: its metrics and its pool, the metrics that its cycles began with, and what has come
to the server. -/
structure Reporter where
  metrics : Ledger
  pool : Pool Job
  snapshots : List Ledger := []
  delivered : List Shipment := []

namespace Reporter

/-- What can happen as long as every delivery succeeds in the end. -/
inductive Event where
  /-- An input to the metrics. -/
  | input (key : Key) (i : Input)
  | poll (random : Binary64) (readings : List Collector.Reading)
  /-- A cycle begins with the metrics that there are. -/
  | cycle
  /-- A step of the pool by which no job is over or dropped. -/
  | work (step : PoolStep Job)
  /-- A job is delivered. -/
  | deliver (ticket : Nat) (carrier : Carrier)

def step? (mode : SendMode) (a : Reporter) : Event → Option Reporter
  | .input key i => some { a with metrics := (Collector.tally key i (0, a.metrics)).2 }
  | .poll random readings => some { a with metrics := (Collector.poll random readings a.metrics).2 }
  | .cycle => (a.pool.step? (.offer (Job.ofSnapshot mode a.metrics))).map fun pool =>
      { a with pool, snapshots := a.snapshots ++ [a.metrics] }
  | .work step => if a.pool.keeps step then (a.pool.step? step).map fun pool => { a with pool } else none
  | .deliver ticket carrier =>
    match Pool.pick? ticket a.pool.deliveries with
    | none => none
    | some (t, _) => (a.pool.step? (.finish ticket .delivered)).map fun pool =>
        { a with pool, delivered := a.delivered ++ [⟨carrier, t.job⟩] }

def run? (mode : SendMode) (a : Reporter) : List Event → Option Reporter
  | [] => some a
  | e :: es => (a.step? mode e).bind fun b => b.run? mode es

/-- What the jobs that are not delivered yet will add to the total of a counter. -/
def outstanding (name : String) (a : Reporter) : Int := (a.pool.jobs.map (Job.added name)).sum

structure IsFresh (a : Reporter) : Prop where
  metrics : a.metrics.Valid
  jobs : a.pool.jobs = []
  snapshots : a.snapshots = []
  delivered : a.delivered = []

/-- Each job of each cycle has been delivered once or is in the pool. -/
structure Accounted (mode : SendMode) (a : Reporter) : Prop where
  metrics : a.metrics.Valid
  snapshots : ∀ l ∈ a.snapshots, l.Valid
  jobs : (a.delivered.map Shipment.job ++ a.pool.jobs).Perm (a.snapshots.flatMap (Job.ofSnapshot mode))

variable {mode : SendMode} {a b : Reporter} {e : Event} {es : List Event}

theorem IsFresh.accounted (h : a.IsFresh) (mode : SendMode) : a.Accounted mode := by
  refine ⟨h.metrics, ?_, ?_⟩
  · simp [h.snapshots]
  · simp [h.jobs, h.snapshots, h.delivered]

theorem Accounted.step (h : a.Accounted mode) (hstep : a.step? mode e = some b) : b.Accounted mode := by
  cases e with
  | input key i =>
    cases hstep
    exact { h with metrics := Collector.valid_tally h.metrics key i }
  | poll random readings =>
    cases hstep
    exact { h with metrics := Collector.valid_poll h.metrics random readings }
  | cycle =>
    obtain ⟨pool, hpool, rfl⟩ := Option.map_eq_some_iff.1 hstep
    refine ⟨h.metrics, ?_, ?_⟩
    · intro l hl
      rcases List.mem_append.1 hl with hl | hl
      · exact h.snapshots l hl
      · exact List.mem_singleton.1 hl ▸ h.metrics
    · rw [Pool.jobs_of_offer hpool, List.flatMap_append, List.flatMap_singleton]
      have hmove := List.perm_append_comm_assoc (a.delivered.map Shipment.job)
        (Job.ofSnapshot mode a.metrics) a.pool.jobs
      exact hmove.trans ((h.jobs.append_left _).trans List.perm_append_comm)
  | work step =>
    rw [step?] at hstep
    split at hstep
    · next hkeeps =>
      obtain ⟨pool, hpool, rfl⟩ := Option.map_eq_some_iff.1 hstep
      exact ⟨h.metrics, h.snapshots,
        ((Pool.perm_jobs_of_keeps hkeeps hpool).append_left _).trans h.jobs⟩
    · cases hstep
  | deliver ticket carrier =>
    rw [step?] at hstep
    split at hstep
    · cases hstep
    · next t rest hpick =>
      obtain ⟨pool, hpool, rfl⟩ := Option.map_eq_some_iff.1 hstep
      refine ⟨h.metrics, h.snapshots, ?_⟩
      rw [List.map_append, List.append_assoc]
      exact ((Pool.perm_jobs_of_delivered hpick hpool).symm.append_left _).trans h.jobs

theorem Accounted.run (h : a.Accounted mode) (hrun : a.run? mode es = some b) : b.Accounted mode := by
  induction es generalizing a with
  | nil =>
    cases hrun
    exact h
  | cons e es ih =>
    obtain ⟨c, hstep, hrest⟩ := Option.bind_eq_some_iff.1 hrun
    exact ih (h.step hstep) hrest

/-- What has been delivered and what is in the pool add what the snapshots had. -/
theorem Accounted.sum_added (h : a.Accounted mode) (name : String) :
    (a.delivered.map fun d => d.job.added name).sum + a.outstanding name =
      (a.snapshots.map (Ledger.total name)).sum := by
  have hsum := (h.jobs.map (Job.added name)).sum_eq
  have hsnapshots : ∀ ls : List Ledger, (∀ l ∈ ls, l.Valid) →
      ((ls.flatMap (Job.ofSnapshot mode)).map (Job.added name)).sum =
        (ls.map (Ledger.total name)).sum := by
    intro ls
    induction ls with
    | nil => exact fun _ => rfl
    | cons l ls ih =>
      intro hls
      obtain ⟨hl, hls⟩ := List.forall_mem_cons.1 hls
      rw [List.flatMap_cons, List.map_append, List.sum_append, ih hls, Job.sum_added_ofSnapshot,
        hl.sorted.increments_self, List.map_cons, List.sum_cons]
  rw [List.map_append, List.sum_append, List.map_map, hsnapshots _ h.snapshots] at hsum
  exact hsum

theorem Accounted.exists_carries (h : a.Accounted mode) {d : Shipment} (hd : d ∈ a.delivered) :
    ∃ ms : List Metric, d.job.Carries ms ∧ ∀ m ∈ ms, m.WellFormed := by
  have hmem : d.job ∈ a.snapshots.flatMap (Job.ofSnapshot mode) :=
    h.jobs.mem_iff.1 (List.mem_append_left _ (List.mem_map_of_mem hd))
  obtain ⟨l, hl, hjob⟩ := List.mem_flatMap.1 hmem
  obtain ⟨ms, hcarries, hsubset⟩ := Job.exists_carries_of_mem hjob
  exact ⟨ms, hcarries, fun m hm => (h.snapshots l hl).wellFormed m (hsubset hm)⟩

/-- An agent reports to a server that no one else sends to, and whatever it sends gets through and is
taken. Then the total of a counter at the server, with what is on its way, is at any time the sum of what
the counter was at the start of each cycle; so when the last cycle is complete it is what the counter was
at the start of that cycle only if the earlier cycles together come to nothing. -/
theorem total_add_outstanding {s : Server} (ha : a.IsFresh) (hs : s.store.IsEmpty)
    (hrun : a.run? mode es = some b) (hreach : ∀ d ∈ b.delivered, d.Reaches s)
    (htaken : Shipment.AllTaken b.delivered s) (name : String) :
    (Shipment.deliverAll b.delivered s).store.total name + b.outstanding name =
        (b.snapshots.map (Ledger.total name)).sum ∧
      ∀ (earlier : List Ledger) (last : Ledger), b.snapshots = earlier ++ [last] → b.pool.jobs = [] →
        ((Shipment.deliverAll b.delivered s).store.total name = last.total name ↔
          (earlier.map (Ledger.total name)).sum = 0) := by
  have hb := (ha.accounted mode).run hrun
  have htotal := Shipment.total_deliverAll .nil hs.holds (fun d hd => hb.exists_carries hd) hreach
    htaken name
  have hempty : Ledger.total name [] = 0 := rfl
  rw [hempty, Int.zero_add] at htotal
  have hsum := hb.sum_added name
  rw [← htotal] at hsum
  refine ⟨hsum, fun earlier last hsnapshots hjobs => ?_⟩
  have hnone : b.outstanding name = 0 := by rw [outstanding, hjobs]; rfl
  rw [hnone, hsnapshots, List.map_append, List.sum_append, List.map_singleton,
    List.sum_singleton] at hsum
  omega

def newAgent : Reporter where
  metrics := []
  pool := { workers := 2, capacity := 32, policy := .standard }

def plainCarrier : Carrier := .rpc {} fun _ => []

/-- Two polls and two cycles of single jobs: of the first cycle the job that is taken first is sent twice,
and it is delivered after the second poll. -/
def retriedRun : List Event :=
  [.poll (.zero false) [], .cycle, .work .accept, .work .accept, .work (.take 0), .work (.take 1),
    .work (.finish 0 .transient), .poll (.zero true) [], .deliver 1 plainCarrier, .work (.resend 0),
    .deliver 0 plainCarrier, .cycle, .work .accept, .work (.take 0), .work .accept, .work (.take 1),
    .deliver 3 plainCarrier, .deliver 2 plainCarrier]

def openServer : Server := { store := .table [], disk := {} }

/-- The counter is 1 in the first cycle and 2 in the second, and comes to 3. -/
theorem total_add_outstanding_retriedRun : ∃ b, newAgent.run? .single retriedRun = some b ∧
    b.pool.jobs = [] ∧ b.snapshots.map (Ledger.total "PollCount") = [1, 2] ∧
      (Shipment.deliverAll b.delivered openServer).store.total "PollCount" = 3 := by
  have hdone : (newAgent.run? .single retriedRun).any fun b => b.pool.jobs = [] ∧
      b.snapshots.map (Ledger.total "PollCount") = [1, 2] ∧ Shipment.AllTaken b.delivered openServer ∧
        b.delivered.all fun d => d.carrier.isPlainCall := by decide +kernel
  obtain ⟨b, hrun, hb⟩ := (Option.any_eq_true _ _).1 hdone
  obtain ⟨hjobs, hsnapshots, htaken, hplain⟩ := of_decide_eq_true hb
  have hreach : ∀ d ∈ b.delivered, d.Reaches openServer :=
    fun d hd => reaches_of_isPlainCall rfl (List.all_eq_true.1 hplain d hd) d.job
  have hfresh : newAgent.IsFresh := ⟨.nil, rfl, rfl, rfl⟩
  have htotal := (total_add_outstanding hfresh .table hrun hreach htaken "PollCount").1
  rw [outstanding, hjobs, hsnapshots, List.map_nil, List.sum_nil, Int.add_zero] at htotal
  exact ⟨b, hrun, hjobs, hsnapshots, htotal.trans rfl⟩

end Reporter

/-- A link on which every send gets to a server. -/
def Carrier.link (c : Carrier) (cost : Nat) : Link Unit Server where
  cost := cost
  send job s := ((), Shipment.deliver s ⟨c, job⟩)
  outcome _ := .delivered

namespace Sender

def steady : Sender := ⟨.batch, 1, 1000, .standard⟩

/-- A counter of four polls, and a fifth poll between the first two cycles. -/
def fivePolls : Feed := ⟨[⟨"PollCount", .counter 4⟩], [(1500, Collector.pollCount, .int 1)]⟩

/-- Every send succeeds at once, and after the second cycle the server has counted the first four polls
twice. -/
theorem run_steady_counts_twice :
    (fivePolls.metricsAt 2000).total "PollCount" = 5 ∧
      (steady.run (Reporter.plainCarrier.link 5) Reporter.openServer fivePolls 2500).peer.store.total
        "PollCount" = 9 := by
  decide +kernel

end Sender
end Agent
end Telemetry
