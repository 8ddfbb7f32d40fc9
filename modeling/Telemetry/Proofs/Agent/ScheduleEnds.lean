import Telemetry.Proofs.Agent.Deadlines

/-!
A schedule comes to its end. At each moment less is left to do than before: a worker gets on, the work is
cancelled or one of the cycles before the cancellation begins. As long as not all is over there is a next
moment, and so all is over after as many moments as there are things to do. What happens on the way are
the cases that the passing of time has.
-/
namespace Telemetry.Agent

namespace Pool
variable {α : Type} {p q : Pool α} {h : History α} {step : PoolStep α}

def workAhead (p : Pool α) : Nat := p.workLeft + (2 * p.policy.maxRetries + 2) * p.pending.length

theorem workAhead_lt (hp : h.Tells p) (hstep : p.Moves step q) (hwork : step.isWork) :
    q.workAhead < p.workAhead := by
  have hlt := workLeft_lt hp hstep hwork
  have hsame : q.policy = p.policy ∧ q.pending = p.pending := by
    cases hstep with
    | offer => cases hwork
    | accept => cases hwork
    | cancel => cases hwork
    | close => cases hwork
    | _ => exact ⟨rfl, rfl⟩
  rw [workAhead, workAhead, hsame.1, hsame.2]
  omega

theorem workAhead_le (hp : h.Tells p) (hstep : p.Moves step q) (hcycle : step.cycle? = none) :
    q.workAhead ≤ p.workAhead := by
  by_cases hwork : step.isWork
  · exact Nat.le_of_lt (workAhead_lt hp hstep hwork)
  · cases hstep with
    | offer => cases hcycle
    | accept hpending hroom hopen =>
      simp only [workAhead, workLeft, hpending, List.length_append, List.length_cons, List.length_nil,
        Nat.mul_add]
      omega
    | cancel => exact Nat.le_refl _
    | close hdone => simp [workAhead, workLeft]
    | _ => exact absurd rfl hwork

end Pool

namespace Schedule
variable {ρ σ : Type} {link : Link ρ σ} {s s' : Schedule ρ σ} {h : History Job}
  {ticket time period bound : Nat} {cancel : Option Nat} {d : Deadline} {m : Moment}

theorem WorksTo.workAhead_le (hp : h.Tells s.pool) (hworks : s.WorksTo link s') :
    s'.pool.workAhead ≤ s.pool.workAhead := by
  obtain ⟨-, -, hle⟩ := hworks.keeps
    (P := fun q => ∃ h, History.Tells h q ∧ q.workAhead ≤ s.pool.workAhead) ⟨h, hp, Nat.le_refl _⟩
    fun hmoves hcycle ⟨_, hq, hle⟩ =>
      ⟨_, hq.step hmoves, Nat.le_trans (Pool.workAhead_le hq hmoves hcycle) hle⟩
  exact hle

section Moments

theorem firstDue?_eq_none {ds : List Deadline} (hfirst : firstDue? ds = none) : ds = [] := by
  cases ds with
  | nil => rfl
  | cons d ds =>
    rw [firstDue?] at hfirst
    split at hfirst
    · cases hfirst
    · split at hfirst <;> cases hfirst

theorem mem_of_firstDue? {ds : List Deadline} (hfirst : firstDue? ds = some d) :
    d ∈ ds ∧ ∀ e ∈ ds, d.due ≤ e.due := by
  induction ds generalizing d with
  | nil => cases hfirst
  | cons e es ih =>
    rw [firstDue?] at hfirst
    split at hfirst
    · next hnone =>
      cases hfirst
      simp [firstDue?_eq_none hnone]
    · next f hsome =>
      obtain ⟨hmem, hle⟩ := ih hsome
      split at hfirst
      · next hearlier =>
        cases hfirst
        exact ⟨List.mem_cons_self, List.forall_mem_cons.2
          ⟨Nat.le_refl _, fun g hg => Nat.le_trans hearlier (hle g hg)⟩⟩
      · next hlater =>
        cases hfirst
        exact ⟨List.mem_cons_of_mem _ hmem, List.forall_mem_cons.2 ⟨Nat.le_of_not_le hlater, hle⟩⟩

inductive Comes (cancel : Option Nat) (s : Schedule ρ σ) : Nat → Moment → Prop
  | phase {d : Deadline} (hd : d ∈ s.deadlines) : Comes cancel s d.due (.phase d)
  | cancellation {time : Nat} (hopen : s.pool.isCancelled = false) (hstop : cancel = some time) :
      Comes cancel s time .cancellation
  | cycle {start : Nat} (hpending : s.pool.pending = []) (hopen : s.pool.isClosed = false)
      (hstart : s.nextCycle = some start)
      (hbefore : s.pool.isCancelled = false → ∀ stop ∈ cancel, max start s.now < stop) :
      Comes cancel s (max start s.now) .cycle

structure IsNext (cancel : Option Nat) (s : Schedule ρ σ) (time : Nat) : Prop where
  phases : ∀ d ∈ s.deadlines, time ≤ d.due
  stop : s.pool.isCancelled = false → ∀ stop ∈ cancel, time ≤ stop
  cycle : s.pool.pending = [] → s.pool.isClosed = false → ∀ due ∈ s.nextCycle, time ≤ max due s.now

def earliest (ms : List (Nat × Moment)) : Option (Nat × Moment) :=
  ms.foldl (fun best m =>
    match best with
    | none => some m
    | some b => if b.1 ≤ m.1 then some b else some m) none

variable {a b c : Option (Nat × Moment)}

theorem eq_of_earliest {best : Nat × Moment} (h : earliest ([a, b, c].filterMap id) = some best) :
    a = some best ∨ b = some best ∨ c = some best ∧ ∀ x, b = some x → best.1 < x.1 := by
  cases a <;> cases b <;> cases c <;> simp [earliest] at h ⊢ <;> grind

theorem earliest_le {best : Nat × Moment} (h : earliest ([a, b, c].filterMap id) = some best) :
    (∀ x ∈ a, best.1 ≤ x.1) ∧ (∀ x ∈ b, best.1 ≤ x.1) ∧ ∀ x ∈ c, best.1 ≤ x.1 := by
  cases a <;> cases b <;> cases c <;> simp [earliest] at h ⊢ <;> grind

theorem exists_earliest (h : a.isSome ∨ b.isSome) :
    ∃ time m, earliest ([a, b, c].filterMap id) = some (time, m) := by
  cases a <;> cases b <;> cases c <;> simp [earliest] at h ⊢ <;> grind

theorem comes_of_next? (hnext : s.next? cancel = some (time, m)) : s.Comes cancel time m := by
  rcases eq_of_earliest hnext with hphase | hcancel | ⟨hcycle, hbefore⟩
  · obtain ⟨d, hfirst, heq⟩ := Option.map_eq_some_iff.1 hphase
    cases heq
    exact .phase (mem_of_firstDue? hfirst).1
  · obtain ⟨stop, hstop, heq⟩ := Option.map_eq_some_iff.1 hcancel
    cases heq
    split at hstop
    · cases hstop
    · next hopen => exact .cancellation (by simpa using hopen) hstop
  · obtain ⟨start, hstart, heq⟩ := Option.map_eq_some_iff.1 hcycle
    cases heq
    split at hstart
    · next hopen =>
      rw [Bool.and_eq_true, List.isEmpty_iff] at hopen
      exact .cycle hopen.1 (by simpa using hopen.2) hstart fun hcancelled stop hstop =>
        hbefore (stop, .cancellation) (by simpa [hcancelled] using hstop)
    · cases hstart

theorem isNext_of_next? (hnext : s.next? cancel = some (time, m)) : s.IsNext cancel time := by
  obtain ⟨hphase, hcancel, hcycle⟩ := earliest_le hnext
  refine ⟨fun d hd => ?_, fun hcancelled stop hstop => ?_, fun hpending hopen due hdue => ?_⟩
  · cases hfirst : firstDue? s.deadlines with
    | none =>
      rw [firstDue?_eq_none hfirst] at hd
      cases hd
    | some e =>
      exact Nat.le_trans (hphase (e.due, .phase e) (by simp [hfirst])) ((mem_of_firstDue? hfirst).2 d hd)
  · exact hcancel (stop, .cancellation) (by simpa [hcancelled] using hstop)
  · exact hcycle (max due s.now, .cycle) (by simpa [hpending, hopen] using ⟨due, hdue, rfl⟩)

end Moments

structure IsLive (period : Nat) (cancel : Option Nat) (s : Schedule ρ σ) : Prop where
  tells : ∃ h : History Job, h.Tells s.pool
  isTimed : s.IsTimed
  /-- The queue is closed, or the work is going to be cancelled. -/
  ends : s.pool.isClosed ∨ s.pool.isCancelled = false ∧ cancel.isSome ∧ s.nextCycle.isSome
  stop : s.pool.isCancelled = false → ∀ stop ∈ cancel, s.now ≤ stop
  period : s.nextCycle.isSome → 0 < period

theorem exists_next? (hlive : s.IsLive period cancel) (hsettled : s.pool.IsSettled)
    (hover : s.pool.isOver = false) : ∃ time m, s.next? cancel = some (time, m) := by
  cases hfirst : firstDue? s.deadlines with
  | some d => exact exists_earliest (.inl (by rw [hfirst]; rfl))
  | none =>
    have hdeliveries : s.pool.deliveries = [] := by
      have hnone := hlive.isTimed.tickets
      rw [firstDue?_eq_none hfirst] at hnone
      rw [List.eq_nil_iff_forall_not_mem]
      exact fun t ht => List.not_mem_nil ((hnone t.ticket).1 (List.mem_map_of_mem ht))
    have hleft : s.pool.queue = [] ∨ s.pool.isDeserted := by
      refine or_iff_not_imp_left.2 fun hqueue => Pool.isDeserted_iff.2 fun worker hworker => ?_
      have hoccupied := Pool.freeWorker?_eq_none.1 (hsettled.take hqueue) worker hworker
      simpa [Pool.occupied, hdeliveries] using hoccupied
    have hopen : s.pool.isClosed = false := by
      rw [Pool.isOver, hdeliveries] at hover
      rcases hleft with hqueue | hdeserted
      · simpa [hqueue] using hover
      · simpa [hdeserted] using hover
    rcases hlive.ends with hclosed | ⟨hcancelled, hcancel, -⟩
    · cases hopen.symm.trans hclosed
    · exact exists_earliest (.inr (by simpa [hcancelled] using hcancel))

/-- A worker gets on. -/
structure Advances (s s' : Schedule ρ σ) : Prop where
  isTimed : s'.IsTimed
  sameQueue : s.SameQueue s'
  less : s'.pool.workAhead < s.pool.workAhead

section Phases
variable (link) {t : Delivery Job} {rest : List (Delivery Job)} (hp : h.Tells s.pool) (htimed : s.IsTimed)
include hp htimed

theorem advances_endSend (hpick : Pool.pick? ticket s.pool.deliveries = some (t, rest))
    (hphase : t.phase = .sending) (start : Nat) : s.Advances (s.endSend link ticket start) := by
  refine ⟨isTimed_endSend link hpick (nodup_tickets hp) (htimed.but fun _ _ => Iff.rfl) hphase start,
    (serves_endSend link s ticket start).sameQueue, ?_⟩
  obtain ⟨pool, hstep⟩ : ∃ pool, s.pool.step?
      (.finish ticket (link.outcome (link.send t.job s.peer).1)) = some pool := by
    rcases Pool.step?_finish hpick hphase (link.outcome (link.send t.job s.peer).1) with
      ⟨-, hstep⟩ | ⟨q, hstep, -⟩
    · exact ⟨_, hstep⟩
    · exact ⟨q, hstep⟩
  have hmoves := Pool.moves_of_step? hstep
  rw [endSend_of_pick? start hpick hstep]
  exact Nat.lt_of_le_of_lt ((serves_pause_dropDeadline link _ ticket).works.workAhead_le (hp.step hmoves))
    (Pool.workAhead_lt hp hmoves rfl)

theorem advances_resend (hpick : Pool.pick? ticket s.pool.deliveries = some (t, rest))
    (hphase : t.phase = .waiting) :
    s.Advances (beginSend link ticket (s.act (.resend ticket))) := by
  let u : Delivery Job := { t with phase := .sending, sends := t.sends + 1 }
  have hticket : t.ticket = ticket := Pool.ticket_of_pick? hpick
  have hstep : s.pool.step? (.resend ticket) = some (s.pool.proceed u rest) := by
    simp only [Pool.step?, hpick, hphase, if_true, u]
  have hmoves := Pool.moves_of_step? hstep
  have hp' := hp.step hmoves
  have hperm := Pool.tickets_proceed_perm hpick (u := u) hticket
  have hserves := serves_beginSend link { s with pool := s.pool.proceed u rest } ticket
  have hsame : s.SameQueue { s with pool := s.pool.proceed u rest } := ⟨rfl, rfl, rfl, rfl, rfl, rfl⟩
  rw [act_of_some hstep]
  refine ⟨isTimed_beginSend link (s := { s with pool := _ })
    (Pool.pick?_proceed hpick (nodup_tickets hp) (u := u) hticket) (nodup_tickets (s := { s with pool := _ }) hp')
    (htimed.but fun j _ => hperm.mem_iff) rfl, hsame.trans hserves.sameQueue, ?_⟩
  exact Nat.lt_of_le_of_lt (hserves.works.workAhead_le hp') (Pool.workAhead_lt hp hmoves rfl)

theorem advances_happen {jobsAt : Nat → List Job} (hd : d ∈ s.deadlines) :
    s.Advances (s.happen link period jobsAt (.phase d)) := by
  obtain ⟨t, rest, hpick⟩ := Pool.exists_pick? ((htimed.tickets d.ticket).2 (List.mem_map_of_mem hd))
  simp only [happen, delivery?_of_pick? hpick]
  cases hphase : t.phase with
  | sending => exact advances_endSend link hp htimed hpick hphase d.start
  | waiting => exact advances_resend link hp htimed hpick hphase

end Phases

section GivingUp
variable {ts : List (Delivery Job)}

structure Wait (ts : List (Delivery Job)) (s : Schedule ρ σ) : Prop where
  waiting : ∀ t ∈ ts, t ∈ s.pool.deliveries ∧ t.phase = .waiting
  nodup : (ts.map Delivery.ticket).Nodup
  tickets : s.pool.tickets.Nodup
  isCancelled : s.pool.isCancelled
  isTimed : s.IsTimed

theorem Wait.giveUp {t : Delivery Job} (h : s.Wait (t :: ts)) : (s.giveUp t.ticket).Wait ts := by
  obtain ⟨⟨ht, hphase⟩, hts⟩ := List.forall_mem_cons.1 h.waiting
  obtain ⟨hnew, hnodup⟩ := List.nodup_cons.1 (List.map_cons ▸ h.nodup)
  obtain ⟨rest, hpick⟩ := Pool.pick?_of_mem h.tickets ht
  have htimed := isTimed_giveUp hpick h.tickets (h.isTimed.but fun _ _ => Iff.rfl) hphase h.isCancelled
  have hstep : s.pool.step? (.giveUp t.ticket) = some (s.pool.conclude t rest false) := by
    simp [Pool.step?, hpick, hphase, h.isCancelled]
  rw [Schedule.giveUp, act_of_some hstep] at htimed ⊢
  refine ⟨fun u hu => ⟨?_, (hts u hu).2⟩, hnodup,
    (List.nodup_cons.1 ((Pool.tickets_perm hpick).nodup_iff.1 h.tickets)).2, h.isCancelled, htimed⟩
  rcases List.mem_cons.1 ((Pool.perm_of_pick? hpick).mem_iff.1 (hts u hu).1) with rfl | hu'
  · exact absurd (List.mem_map_of_mem hu) hnew
  · exact hu'

theorem Wait.giveUps (h : s.Wait ts) : (ts.foldl (fun s t => s.giveUp t.ticket) s).IsTimed := by
  induction ts generalizing s with
  | nil => exact h.isTimed
  | cons t ts ih => exact ih h.giveUp

theorem isTimed_giveUpAll (hnodup : s.pool.tickets.Nodup) (hcancelled : s.pool.isCancelled)
    (htimed : s.IsTimed) : s.giveUpAll.IsTimed := by
  refine Wait.giveUps ⟨fun t ht => ?_, hnodup.sublist (List.filter_sublist.map _), hnodup, hcancelled, htimed⟩
  obtain ⟨ht, hphase⟩ := List.mem_filter.1 ht
  exact ⟨ht, of_decide_eq_true hphase⟩

end GivingUp

/-- The cycles that can still begin before the work is cancelled. -/
def cyclesLeft (period : Nat) (cancel : Option Nat) (s : Schedule ρ σ) : Nat :=
  match cancel, s.nextCycle with
  | some stop, some start => (stop + period - start) / period
  | _, _ => 0

theorem cyclesLeft_of_none (hcycle : s.nextCycle = none) : s.cyclesLeft period cancel = 0 := by
  cases cancel <;> simp [cyclesLeft, hcycle]

/-- The most moments that can still come, if a cycle brings so many jobs at most. -/
def momentsLeft (period bound : Nat) (cancel : Option Nat) (s : Schedule ρ σ) : Nat :=
  s.pool.workAhead + (if s.pool.isCancelled then 0 else 1) +
    s.cyclesLeft period cancel * ((2 * s.pool.policy.maxRetries + 2) * bound + 1)

theorem Advances.momentsLeft_lt (h : s.Advances s') (hpolicy : s'.pool.policy = s.pool.policy) :
    s'.momentsLeft period bound cancel < s.momentsLeft period bound cancel := by
  have hless := h.less
  simp only [momentsLeft, cyclesLeft, hpolicy, h.sameQueue.isCancelled, h.sameQueue.nextCycle]
  omega

section Happens
variable (link) (jobsAt : Nat → List Job)

theorem serves_phase (s : Schedule ρ σ) (period : Nat) (d : Deadline) :
    s.ServesTo link (s.happen link period jobsAt (.phase d)) := by
  simp only [happen]
  split
  · exact .refl
  · split
    · exact serves_endSend link s _ _
    · exact (serves_act link s rfl).trans (serves_beginSend link _ _)

variable {jobsAt}

theorem isLive_phase (hlive : s.IsLive period cancel) (hd : d ∈ s.deadlines) :
    (s.happen link period jobsAt (.phase d)).IsLive period cancel ∧
      (s.happen link period jobsAt (.phase d)).momentsLeft period bound cancel <
        s.momentsLeft period bound cancel := by
  obtain ⟨h, hp⟩ := hlive.tells
  have hadvances : s.Advances (s.happen link period jobsAt (.phase d)) :=
    advances_happen link hp hlive.isTimed hd
  have hworks := (serves_phase link jobsAt s period d).works
  have hsame := hadvances.sameQueue
  refine ⟨⟨hworks.exists_tells hp, hadvances.isTimed, ?_, ?_, ?_⟩,
    hadvances.momentsLeft_lt hworks.settings.2.1⟩
  · rw [hsame.isClosed, hsame.isCancelled, hsame.nextCycle]
    exact hlive.ends
  · rw [hsame.isCancelled, hsame.now]
    exact hlive.stop
  · rw [hsame.nextCycle]
    exact hlive.period

structure Cancels (s s' : Schedule ρ σ) : Prop where
  isTimed : s'.IsTimed
  tells : ∃ h : History Job, h.Tells s'.pool
  nextCycle : s'.nextCycle = s.nextCycle
  policy : s'.pool.policy = s.pool.policy
  isCancelled : s'.pool.isCancelled
  isClosed : s.pool.isClosed ∨ s.nextCycle.isSome → s'.pool.isClosed
  less : s'.pool.workAhead ≤ s.pool.workAhead

theorem cancels_happen (hp : h.Tells s.pool) (htimed : s.IsTimed) (period : Nat) (jobsAt : Nat → List Job) :
    s.Cancels (s.happen link period jobsAt .cancellation) := by
  let c : Schedule ρ σ := { s with pool := { s.pool with isCancelled := true } }
  have hp' : h.Tells c.pool := hp.step .cancel
  have hgiveUps := isTimed_giveUpAll (s := c) (nodup_tickets hp') rfl htimed
  have hserves := serves_giveUpAll link c
  obtain ⟨h'', hp''⟩ := hserves.works.exists_tells hp'
  have hless : c.giveUpAll.pool.workAhead ≤ c.pool.workAhead := hserves.works.workAhead_le hp'
  have hpolicy := hserves.works.settings.2.1
  obtain ⟨-, -, hcancelled, hclosed, -, hcycle⟩ := hserves.sameQueue
  have hcancel : s.act .cancel = c := act_of_some rfl
  rw [happen, hcancel]
  split
  · have hstep := Pool.step?_close (.inl (hcancelled.trans rfl))
    have hmoves := Pool.moves_of_step? hstep
    rw [act_of_some hstep]
    exact ⟨hgiveUps, ⟨_, hp''.step hmoves⟩, hcycle, hpolicy, hcancelled, fun _ => rfl,
      Nat.le_trans (Pool.workAhead_le hp'' hmoves rfl) hless⟩
  · next hnone =>
    rw [hcycle] at hnone
    exact ⟨hgiveUps, ⟨h'', hp''⟩, hcycle, hpolicy, hcancelled,
      fun h => hclosed.trans (h.resolve_right hnone), hless⟩

theorem isLive_cancellation (hlive : s.IsLive period cancel) (hopen : s.pool.isCancelled = false) :
    (s.happen link period jobsAt .cancellation).IsLive period cancel ∧
      (s.happen link period jobsAt .cancellation).momentsLeft period bound cancel <
        s.momentsLeft period bound cancel := by
  obtain ⟨h, hp⟩ := hlive.tells
  obtain ⟨htimed, htells, hcycle, hpolicy, hcancelled, hclosed, hless⟩ :=
    cancels_happen link hp hlive.isTimed period jobsAt
  refine ⟨⟨htells, htimed, .inl (hclosed (hlive.ends.imp_right fun h => h.2.2)),
    fun hopen' => absurd hopen' (by simp [hcancelled]), hcycle ▸ hlive.period⟩, ?_⟩
  simp only [momentsLeft, cyclesLeft, hpolicy, hcycle, hcancelled, hopen, if_true]
  simp only [Bool.false_eq_true, if_false]
  omega

theorem happen_cycle (jobsAt : Nat → List Job) {start : Nat} (period : Nat) (hpending : s.pool.pending = [])
    (hopen : s.pool.isClosed = false) (hstart : s.nextCycle = some start) :
    s.pool.step? (.offer (jobsAt s.now)) = some { s.pool with pending := jobsAt s.now } ∧
      s.happen link period jobsAt .cycle =
        { s with pool := { s.pool with pending := jobsAt s.now }, nextCycle := some (start + period) } := by
  have hstep : s.pool.step? (.offer (jobsAt s.now)) = some { s.pool with pending := jobsAt s.now } := by
    simp [Pool.step?, hpending, hopen]
  exact ⟨hstep, by rw [happen, act_of_some hstep, hstart]; rfl⟩

theorem isLive_cycle (hlive : s.IsLive period cancel) (hbound : (jobsAt s.now).length ≤ bound)
    {start : Nat} (hpending : s.pool.pending = []) (hopen : s.pool.isClosed = false)
    (hstart : s.nextCycle = some start) (hbefore : ∀ stop ∈ cancel, start < stop) :
    (s.happen link period jobsAt .cycle).IsLive period cancel ∧
      (s.happen link period jobsAt .cycle).momentsLeft period bound cancel <
        s.momentsLeft period bound cancel := by
  obtain ⟨h, hp⟩ := hlive.tells
  obtain ⟨hcancelled, hcancel, -⟩ := hlive.ends.resolve_left (by simp [hopen])
  obtain ⟨stop, rfl⟩ := Option.isSome_iff_exists.1 hcancel
  have hlt := hbefore stop rfl
  have hperiod := hlive.period (by simp [hstart])
  obtain ⟨hstep, hhappen⟩ := happen_cycle link jobsAt period hpending hopen hstart
  rw [hhappen]
  refine ⟨⟨⟨_, hp.step (Pool.moves_of_step? hstep)⟩, hlive.isTimed, .inr ⟨hcancelled, rfl, rfl⟩, hlive.stop,
    fun _ => hperiod⟩, ?_⟩
  have hcycles : (stop + period - start) / period = (stop + period - (start + period)) / period + 1 := by
    rw [Nat.add_sub_add_right, ← Nat.add_div_right _ hperiod]
    congr 1
    omega
  have hwork := Nat.mul_le_mul_left (2 * s.pool.policy.maxRetries + 2) hbound
  simp only [momentsLeft, cyclesLeft, Pool.workAhead, Pool.workLeft, hstart, hcancelled, hcycles, hpending,
    Nat.add_mul, List.length_nil]
  simp only [Nat.add_mul] at hwork
  omega

theorem isLive_wait (hlive : s.IsLive period cancel) (hnext : s.IsNext cancel time) :
    IsLive period cancel { s with now := time } :=
  { hlive with
    isTimed := ⟨hlive.isTimed.tickets, hnext.phases⟩
    stop := hnext.stop }

/-- What comes next leaves less to come. -/
theorem isLive_happen (hlive : s.IsLive period cancel) (hbound : ∀ time, (jobsAt time).length ≤ bound)
    (hcomes : s.Comes cancel time m) (hnext : s.IsNext cancel time) :
    (happen link period jobsAt m { s with now := time }).IsLive period cancel ∧
      (happen link period jobsAt m { s with now := time }).momentsLeft period bound cancel <
        s.momentsLeft period bound cancel := by
  have hlive' := isLive_wait hlive hnext
  cases hcomes with
  | phase hd => exact isLive_phase link hlive' hd
  | cancellation hopen hstop => exact isLive_cancellation link hlive' hopen
  | cycle hpending hopen hstart hbefore =>
    have hcancelled := (hlive.ends.resolve_left (by simp [hopen])).1
    exact isLive_cycle link hlive' (hbound _) hpending hopen hstart fun stop hstop =>
      Nat.lt_of_le_of_lt (Nat.le_max_left _ _) (hbefore hcancelled stop hstop)

theorem isLive_settled (bound : Nat) (hlive : s.IsLive period cancel) :
    (s.settled link).IsLive period cancel ∧
      (s.settled link).momentsLeft period bound cancel ≤ s.momentsLeft period bound cancel := by
  obtain ⟨h, hp⟩ := hlive.tells
  have hworks := works_settled link s
  have hwork := hworks.workAhead_le hp
  have hpolicy := hworks.settings.2.1
  obtain ⟨hnow, hcycle, hcancelled⟩ := hworks.sameTime
  refine ⟨⟨hworks.exists_tells hp, isTimed_settle link _ hp hlive.isTimed, ?_, ?_, ?_⟩, ?_⟩
  · rw [hcancelled, hcycle]
    exact hlive.ends.imp_left hworks.isClosed
  · rw [hcancelled, hnow]
    exact hlive.stop
  · rw [hcycle]
    exact hlive.period
  · simp only [momentsLeft, cyclesLeft, hpolicy, hcancelled, hcycle]
    omega

/-- As many moments as can come are enough for all to be over. -/
theorem isOver_run (hbound : ∀ time, (jobsAt time).length ≤ bound) {fuel : Nat}
    (hlive : s.IsLive period cancel) (hsettled : s.pool.IsSettled)
    (hfuel : s.momentsLeft period bound cancel ≤ fuel) :
    (s.run link period jobsAt cancel fuel).pool.isOver := by
  induction fuel generalizing s with
  | zero =>
    by_contra hover
    rw [run, Bool.not_eq_true] at hover
    obtain ⟨time, m, hnext⟩ := exists_next? hlive hsettled hover
    have hless := (isLive_happen link hlive hbound (comes_of_next? hnext) (isNext_of_next? hnext)).2
    omega
  | succ fuel ih =>
    rw [run]
    split
    · next hover => exact hover
    · next hover =>
      obtain ⟨time, m, hnext⟩ := exists_next? hlive hsettled (by simpa using hover)
      obtain ⟨hlive', hless⟩ :=
        isLive_happen link hlive hbound (comes_of_next? hnext) (isNext_of_next? hnext)
      obtain ⟨hlive'', hle⟩ := isLive_settled link bound hlive'
      rw [hnext]
      exact ih hlive'' (isSettled_settled link _) (by omega)

theorem passes_happen (jobsAt : Nat → List Job) (hlive : s.IsLive period cancel)
    (hsettled : s.pool.IsSettled) (hcomes : s.Comes cancel time m) (hnext : s.IsNext cancel time) :
    s.PassesTo link period jobsAt cancel (happen link period jobsAt m { s with now := time }) := by
  have hnow : s.now ≤ time := by
    cases hcomes with
    | phase hd => exact hlive.isTimed.due _ hd
    | cancellation hopen hstop => exact hlive.stop hopen _ hstop
    | cycle => exact Nat.le_max_right _ _
  refine .head ⟨_, .wait hnow hnext.cycle⟩ ?_
  cases hcomes with
  | phase hd => exact (serves_phase link jobsAt _ period _).works.passes period jobsAt cancel
  | cancellation hopen hstop =>
    let c : Schedule ρ σ := { s with now := time, pool := { s.pool with isCancelled := true } }
    refine .head ⟨_, .cancel hstop⟩ ?_
    have hserves := serves_giveUpAll link c
    obtain ⟨hpending, hqueue, hcancelled, hclosed, hsame, -⟩ := hserves.sameQueue
    refine .trans (hserves.works.passes period jobsAt cancel) ?_
    obtain ⟨h, hp⟩ := hlive.tells
    have hcancel : act { s with now := time } .cancel = c := act_of_some rfl
    rw [happen, hcancel]
    split
    · have hstep := Pool.step?_close (.inl (hcancelled.trans rfl))
      rw [act_of_some hstep]
      refine .single ⟨_, .close (hstop.trans (congrArg some hsame.symm)) (fun hne => ?_) hstep⟩
      rw [hserves.works.settings.2.2, hqueue]
      rw [hpending] at hne
      refine hsettled.full (Bool.eq_false_iff.2 fun hclosed => hne (hp.queues.closed hclosed)) hne
    · exact .refl
  | cycle hpending hopen hstart hbefore =>
    have hcancelled := (hlive.ends.resolve_left (by simp [hopen])).1
    obtain ⟨hstep, hhappen⟩ := happen_cycle link (s := { s with now := max _ s.now }) jobsAt
      period hpending hopen hstart
    rw [hhappen]
    exact .single ⟨_, .cycle hstart (Nat.le_max_left _ _) (hbefore hcancelled) hstep⟩

/-- A schedule runs as time passes. -/
theorem passes_run (hbound : ∀ time, (jobsAt time).length ≤ bound) (hlive : s.IsLive period cancel)
    (hsettled : s.pool.IsSettled) (fuel : Nat) :
    s.PassesTo link period jobsAt cancel (s.run link period jobsAt cancel fuel) := by
  induction fuel generalizing s with
  | zero => exact .refl
  | succ fuel ih =>
    rw [run]
    split
    · exact .refl
    · split
      · exact .refl
      · next time m hnext =>
        have hcomes := comes_of_next? hnext
        have hlive' := (isLive_happen link hlive hbound hcomes (isNext_of_next? hnext)).1
        have hhappen := passes_happen link jobsAt hlive hsettled hcomes (isNext_of_next? hnext)
        refine (hhappen.trans ((works_settled link _).passes period jobsAt cancel)).trans ?_
        exact ih (isLive_settled link bound hlive').1 (isSettled_settled link _)

end Happens

end Schedule
end Telemetry.Agent
