import Telemetry.Proofs.Agent.ScheduleEnds
import Telemetry.Proofs.Store.LedgerSteps

/-!
A sender comes to its end, whether it runs in cycles or flushes its metrics once. The moments that it is
given are enough, as each cycle brings no more jobs than there are metrics.
-/
namespace Telemetry

theorem Ledger.length_put_le (m : Metric) (l : Ledger) : (l.put m).length ≤ l.length + 1 := by
  induction l with
  | nil => exact Nat.le_refl _
  | cons a rest ih =>
    rw [put]
    split
    · exact Nat.le_succ _
    · split
      · exact Nat.le_refl _
      · exact Nat.succ_le_succ ih

namespace Agent

/-- An update adds a metric at most. -/
theorem Feed.length_metricsAt_le (f : Feed) (time : Nat) : (f.metricsAt time).length ≤ f.bound := by
  have hfold : ∀ {γ : Type} (g : Ledger → γ → Ledger), (∀ l c, (g l c).length ≤ l.length + 1) →
      ∀ (cs : List γ) (l : Ledger), (cs.foldl g l).length ≤ l.length + cs.length := by
    intro γ g hg cs
    induction cs with
    | nil => exact fun l => Nat.le_refl _
    | cons c cs ih =>
      intro l
      have hfirst := hg l c
      exact Nat.le_trans (ih (g l c)) (by rw [List.length_cons]; omega)
  refine Nat.le_trans (hfold _ (fun l c => ?_) _ _) (Nat.add_le_add_left ?_ _)
  · split
    · next m l' happly =>
      obtain ⟨-, -, -, -, rfl⟩ := Ledger.apply_eq_ok happly
      exact l.length_put_le m
    · exact Nat.le_succ _
  · rw [List.length_mergeSort]
    exact List.length_filter_le _ _

theorem Job.length_ofSnapshot_le (mode : SendMode) (ms : List Metric) :
    (Job.ofSnapshot mode ms).length ≤ ms.length := by
  cases mode with
  | single => simp [ofSnapshot]
  | batch => cases ms <;> simp [ofSnapshot]

namespace Schedule
variable {ρ σ : Type} {link : Link ρ σ} {s s' : Schedule ρ σ}

def shut (s : Schedule ρ σ) : Schedule ρ σ := { s with pool := { s.pool with isClosed := true } }

theorem step?_close_of_pending (hpending : s.pool.pending = []) : s.pool.step? .close = some s.shut.pool := by
  rw [Pool.step?_close (.inr (.inr hpending)), shut, ← hpending]

/-- Without a new cycle no job comes to wait. -/
theorem pending_of_moves {p q : Pool Job} {step : PoolStep Job} (hmoves : p.Moves step q)
    (hcycle : step.cycle? = none) (hpending : p.pending = []) : q.pending = [] := by
  cases hmoves with
  | offer => cases hcycle
  | accept hjob => cases hpending.symm.trans hjob
  | close => rfl
  | _ => exact hpending

theorem WorksTo.pending (hworks : s.WorksTo link s') (hpending : s.pool.pending = []) :
    s'.pool.pending = [] :=
  hworks.keeps (P := fun q => q.pending = []) hpending pending_of_moves

/-- Where there is room for all jobs, all are accepted before anything else is done. -/
theorem exists_settle_eq (link : Link ρ σ) {fuel : Nat} (hfuel : s.pool.pending.length ≤ fuel)
    (hroom : s.pool.queue.length + s.pool.pending.length ≤ s.pool.capacity)
    (hopen : s.pool.isClosed = false) (halive : s.pool.isDeserted = false) :
    ∃ s' fuel', s.WorksTo link s' ∧ s'.pool.pending = [] ∧ s'.pool.isClosed = false ∧
      s.settle link fuel = s'.settle link fuel' := by
  induction hpending : s.pool.pending generalizing s fuel with
  | nil => exact ⟨s, fuel, .refl, hpending, hopen, rfl⟩
  | cons job rest ih =>
    rw [hpending, List.length_cons] at hfuel hroom
    obtain ⟨fuel, rfl⟩ : ∃ n, fuel = n + 1 := ⟨fuel - 1, by omega⟩
    let pool : Pool Job := { s.pool with
      pending := rest, queue := s.pool.queue ++ [(s.pool.accepted, job)], accepted := s.pool.accepted + 1 }
    have hstep : s.pool.step? .accept = some pool := by
      rw [Pool.step?, hpending]
      exact if_pos ⟨by omega, by simp [hopen], by simp [halive]⟩
    obtain ⟨s', fuel', hworks, hnil, hopen', heq⟩ := ih (s := { s with pool })
      (Nat.le_of_succ_le_succ hfuel)
      (by simp only [pool, List.length_append, List.length_singleton]; omega) hopen halive rfl
    refine ⟨s', fuel', .head ⟨_, .settle rfl hstep⟩ hworks, hnil, hopen', ?_⟩
    rw [settle, hstep]
    exact heq

end Schedule

namespace Sender
variable {ρ σ : Type} {s : Sender} (link : Link ρ σ) (peer : σ) (feed : Feed)

theorem tells_pool (s : Sender) (capacity : Nat) : History.Tells {} (s.pool capacity) where
  queues := ⟨rfl, rfl, rfl, List.nil_suffix, fun hne => absurd rfl hne, fun _ => rfl, fun _ => rfl⟩
  handles := ⟨.refl _, by simp [pool], by simp [pool], fun _ _ => ⟨rfl, rfl⟩⟩
  staffed := ⟨List.nodup_nil, by simp [Pool.occupied, pool], fun hne => absurd rfl hne⟩

theorem isDeserted_pool (s : Sender) (capacity : Nat) : (s.pool capacity).isDeserted = false := by
  rw [Bool.eq_false_iff, ne_eq, Pool.isDeserted_iff]
  exact fun h => absurd (h 0 (Nat.le_max_left 1 _)) (by simp [pool])

theorem length_jobsAt_le (s : Sender) (feed : Feed) (time : Nat) : (s.jobsAt feed time).length ≤ feed.bound :=
  Nat.le_trans (Job.length_ofSnapshot_le _ _) (feed.length_metricsAt_le time)

def atRest (s : Sender) (peer : σ) : Schedule ρ σ :=
  { pool := s.pool (16 * max 1 s.workers), peer, nextCycle := some s.period }

theorem isLive_atRest (hperiod : 0 < s.period) (cancel : Nat) :
    Schedule.IsLive s.period (some cancel) (s.atRest peer : Schedule ρ σ) where
  tells := ⟨{}, s.tells_pool _⟩
  isTimed := ⟨by simp [atRest, Pool.tickets, pool], by simp [atRest]⟩
  ends := .inr ⟨rfl, rfl, rfl⟩
  stop _ stop _ := Nat.zero_le stop
  period _ := hperiod

theorem isSettled_atRest (s : Sender) : (s.atRest peer : Schedule ρ σ).pool.IsSettled :=
  ⟨rfl, fun hne => absurd rfl hne, fun _ => rfl⟩

theorem passes_run (hperiod : 0 < s.period) (cancel : Nat) :
    (s.atRest peer).PassesTo link s.period (s.jobsAt feed) (some cancel) (s.run link peer feed cancel) :=
  Schedule.passes_run link (s.length_jobsAt_le feed) (isLive_atRest peer hperiod cancel)
    (isSettled_atRest peer s) _

theorem isOver_run (hperiod : 0 < s.period) (cancel : Nat) : (s.run link peer feed cancel).pool.isOver := by
  refine Schedule.isOver_run link (s.length_jobsAt_le feed) (isLive_atRest peer hperiod cancel)
    (isSettled_atRest peer s) ?_
  have hmul : cancel / s.period * ((2 * s.policy.maxRetries + 2) * feed.bound) ≤
      2 * (s.policy.maxRetries + 1) * ((cancel / s.period + 1) * feed.bound) :=
    calc cancel / s.period * ((2 * s.policy.maxRetries + 2) * feed.bound)
      _ = 2 * (s.policy.maxRetries + 1) * (cancel / s.period * feed.bound) := Nat.mul_left_comm _ _ _
      _ ≤ 2 * (s.policy.maxRetries + 1) * ((cancel / s.period + 1) * feed.bound) :=
        Nat.mul_le_mul_left _ (Nat.mul_le_mul_right _ (Nat.le_succ _))
  simp only [Schedule.momentsLeft, Schedule.cyclesLeft, Pool.workAhead, Pool.workLeft, pool, maxMoments,
    Nat.add_sub_cancel, List.length_nil, List.map_nil, List.sum_nil, Nat.mul_add_one (cancel / s.period)]
  simp only [Bool.false_eq_true, if_false]
  omega

def loaded (s : Sender) (peer : σ) (feed : Feed) : Schedule ρ σ :=
  { pool := { s.pool (s.jobsAt feed 0).length with pending := s.jobsAt feed 0 }, peer }

/-- What has been done when the queue of a flush has been closed: all jobs were accepted first. -/
structure IsClosing (s : Sender) (link : Link ρ σ) (peer : σ) (feed : Feed) (e e' : Schedule ρ σ) :
    Prop where
  accepts : (s.loaded peer feed).WorksTo link e
  pending : e.pool.pending = []
  isClosed : e.pool.isClosed = false
  works : e.WorksTo link e'
  isTimed : e'.IsTimed
  isSettled : e'.pool.IsSettled
  flush : ∀ cancel, s.flush link peer feed cancel =
    e'.shut.run link s.period (s.jobsAt feed) cancel (s.maxMoments (s.jobsAt feed 0).length)

theorem exists_isClosing (s : Sender) : ∃ e e', s.IsClosing link peer feed e e' := by
  let start : Schedule ρ σ := s.loaded peer feed
  have hoffer : (s.pool (s.jobsAt feed 0).length).Moves (.offer (s.jobsAt feed 0)) start.pool :=
    .offer rfl rfl
  have hp := (s.tells_pool _).step hoffer
  have htimed : start.IsTimed := ⟨by simp [start, loaded, Pool.tickets, pool], by simp [start, loaded]⟩
  have hfuel : start.pool.pending.length ≤ 2 * start.pool.pending.length + start.pool.queue.length + 1 := by
    omega
  obtain ⟨e, fuel, haccepts, hpending, hopen, heq⟩ := start.exists_settle_eq link hfuel
    (by simp [start, loaded, pool]) rfl (s.isDeserted_pool (s.jobsAt feed 0).length)
  have hworks : e.WorksTo link (start.settled link) := by
    rw [Schedule.settled, heq]
    exact Schedule.works_settle link fuel e
  have hclose := Schedule.act_of_some (Schedule.step?_close_of_pending (hworks.pending hpending))
  exact ⟨e, start.settled link, haccepts, hpending, hopen, hworks,
    Schedule.isTimed_settle link _ hp htimed, Schedule.isSettled_settled link start,
    fun cancel => congrArg (Schedule.run link s.period (s.jobsAt feed) cancel _) hclose⟩

section Closing
variable {link peer feed} {e e' : Schedule ρ σ} (h : s.IsClosing link peer feed e e')
include h

theorem IsClosing.reaches : (s.loaded peer feed).WorksTo link e' := h.accepts.trans h.works

theorem IsClosing.close : e'.pool.step? .close = some e'.shut.pool :=
  Schedule.step?_close_of_pending (h.works.pending h.pending)

theorem IsClosing.nextCycle : e'.shut.nextCycle = none := h.reaches.sameTime.nextCycle

theorem IsClosing.isLive (cancel : Option Nat) : e'.shut.IsLive s.period cancel where
  tells :=
    have ⟨_, htells⟩ := h.reaches.exists_tells ((s.tells_pool _).step (.offer rfl rfl))
    ⟨_, htells.step (Pool.moves_of_step? h.close)⟩
  isTimed := h.isTimed
  ends := .inl rfl
  stop _ _ _ := (h.reaches.sameTime.now.trans rfl).trans_le (Nat.zero_le _)
  period hcycle := by simp [h.nextCycle] at hcycle

theorem IsClosing.settled : e'.shut.pool.IsSettled :=
  ⟨by simp [Pool.step?, Schedule.shut, h.works.pending h.pending], h.isSettled.take, h.isSettled.desert⟩

theorem IsClosing.passes (cancel : Option Nat) :
    e'.shut.PassesTo link s.period (s.jobsAt feed) cancel (s.flush link peer feed cancel) := by
  rw [h.flush]
  exact Schedule.passes_run link (s.length_jobsAt_le feed) (h.isLive cancel) h.settled _

end Closing

theorem isOver_flush (cancel : Option Nat) : (s.flush link peer feed cancel).pool.isOver := by
  obtain ⟨e, e', h⟩ := exists_isClosing link peer feed s
  rw [h.flush]
  refine Schedule.isOver_run link (s.length_jobsAt_le feed) (h.isLive cancel) h.settled ?_
  have hwork := h.reaches.workAhead_le ((s.tells_pool _).step (.offer rfl rfl))
  have hcancelled : e'.shut.pool.isCancelled = false := h.reaches.sameTime.isCancelled
  have hjobs : (s.loaded peer feed : Schedule ρ σ).pool.workAhead =
      2 * (s.policy.maxRetries + 1) * (s.jobsAt feed 0).length := by
    simp [loaded, Pool.workAhead, Pool.workLeft, pool, Nat.mul_add]
  have hshut : e'.shut.pool.workAhead = e'.pool.workAhead := rfl
  rw [Schedule.momentsLeft, Schedule.cyclesLeft_of_none h.nextCycle, hcancelled, hshut, maxMoments]
  simp only [Bool.false_eq_true, if_false, Nat.zero_mul]
  omega

end Sender
end Agent
end Telemetry
