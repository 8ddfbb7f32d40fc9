import Telemetry.Proofs.Agent.ScheduleSteps

/-!
The deadlines of a schedule. Between two moments each delivery has a deadline at which something happens,
nothing else has one, and what can be accepted and taken has been.
-/
namespace Telemetry.Agent

namespace Pool
variable {α : Type} {p q : Pool α} {ticket : Nat} {t u : Delivery α} {ts rest : List (Delivery α)}

def tickets (p : Pool α) : List Nat := p.deliveries.map Delivery.ticket

section Picked
variable (hpick : pick? ticket p.deliveries = some (t, rest))
include hpick

theorem tickets_perm : p.tickets.Perm (ticket :: rest.map Delivery.ticket) := by
  have hperm := (perm_of_pick? hpick).map Delivery.ticket
  rwa [List.map_cons, ticket_of_pick? hpick] at hperm

theorem mem_tickets : ticket ∈ p.tickets := (tickets_perm hpick).mem_iff.2 List.mem_cons_self

theorem not_mem_rest (hnodup : p.tickets.Nodup) : ticket ∉ rest.map Delivery.ticket :=
  (List.nodup_cons.1 ((tickets_perm hpick).nodup_iff.1 hnodup)).1

theorem tickets_proceed_perm (hu : u.ticket = ticket) : (p.proceed u rest).tickets.Perm p.tickets := by
  refine List.Perm.trans ?_ (tickets_perm hpick).symm
  rw [tickets, proceed, List.map_append, List.map_singleton, hu]
  exact List.perm_append_singleton _ _

theorem mem_tickets_rest (hnodup : p.tickets.Nodup) (hq : q.deliveries = rest) (j : Nat) :
    j ∈ q.tickets ↔ j ∈ p.tickets ∧ j ≠ ticket := by
  have hrest := not_mem_rest hpick hnodup
  rw [(tickets_perm hpick).mem_iff, List.mem_cons, tickets, hq]
  constructor
  · intro hj
    exact ⟨.inr hj, fun heq => hrest (heq ▸ hj)⟩
  · rintro ⟨heq | hj, hne⟩
    · exact absurd heq hne
    · exact hj

/-- A send that ends leaves its delivery waiting, for as long as the policy says, or ends it. -/
theorem step?_finish (hphase : t.phase = .sending) (outcome : Outcome) :
    ((p.policy.delay? (t.sends - 1)).isSome ∧
      p.step? (.finish ticket outcome) = some (p.proceed { t with phase := .waiting } rest)) ∨
    ∃ q, p.step? (.finish ticket outcome) = some q ∧ q.deliveries = rest := by
  simp only [step?, hpick, hphase, if_true]
  split
  · split
    · next hdelay => exact .inl ⟨hdelay, rfl⟩
    · exact .inr ⟨_, rfl, rfl⟩
  · exact .inr ⟨_, rfl, rfl⟩

theorem pick?_proceed (hnodup : p.tickets.Nodup) (hu : u.ticket = ticket) :
    pick? ticket (p.proceed u rest).deliveries = some (u, rest) :=
  pick?_append hu (not_mem_rest hpick hnodup)

end Picked

theorem freeWorker?_eq_some {worker : Nat} (h : p.freeWorker? = some worker) :
    worker < p.workers ∧ worker ∉ p.occupied :=
  ⟨List.mem_range.1 (List.mem_of_find?_eq_some h), by simpa using List.find?_some h⟩

theorem freeWorker?_eq_none : p.freeWorker? = none ↔ ∀ worker < p.workers, worker ∈ p.occupied := by
  simp [freeWorker?]

/-- What can be accepted and taken has been, and the queue is closed if jobs wait for no one. -/
structure IsSettled (p : Pool α) : Prop where
  accept : p.step? .accept = none
  take : p.queue ≠ [] → p.freeWorker? = none
  desert : p.isDeserted → p.pending = []

/-- Jobs that are not accepted wait only because the queue is full. -/
theorem IsSettled.full (hsettled : p.IsSettled) (hopen : p.isClosed = false) (hpending : p.pending ≠ []) :
    p.capacity ≤ p.queue.length := by
  obtain ⟨job, rest, heq⟩ := List.exists_cons_of_ne_nil hpending
  have halive : ¬p.isDeserted := fun hdeserted => hpending (hsettled.desert hdeserted)
  by_contra hroom
  have hstep := hsettled.accept
  simp only [step?, heq] at hstep
  rw [if_pos ⟨by omega, by simp [hopen], halive⟩] at hstep
  cases hstep

end Pool

/-- Such tickets, and no others, have deadlines that will come. -/
structure Timed (now : Nat) (tickets : List Nat) (ds : List Deadline) : Prop where
  tickets : ∀ j, j ∈ tickets ↔ j ∈ ds.map Deadline.ticket
  due : ∀ d ∈ ds, now ≤ d.due

/-- The same of all tickets but one. -/
structure TimedBut (ticket now : Nat) (tickets : List Nat) (ds : List Deadline) : Prop where
  tickets : ∀ j, j ≠ ticket → (j ∈ tickets ↔ j ∈ ds.map Deadline.ticket)
  due : ∀ d ∈ ds, now ≤ d.due

section Deadlines
variable {ticket now : Nat} {ts ts' : List Nat} {ds : List Deadline}

theorem Timed.but (h : Timed now ts ds) (hts : ∀ j, j ≠ ticket → (j ∈ ts' ↔ j ∈ ts)) :
    TimedBut ticket now ts' ds :=
  ⟨fun j hj => (hts j hj).trans (h.tickets j), h.due⟩

theorem TimedBut.filter (h : TimedBut ticket now ts ds) :
    TimedBut ticket now ts (ds.filter fun d => d.ticket ≠ ticket) := by
  refine ⟨fun j hj => (h.tickets j hj).trans ?_, fun d hd => h.due d (List.mem_filter.1 hd).1⟩
  simp only [List.mem_map, List.mem_filter, decide_eq_true_eq]
  constructor
  · rintro ⟨d, hd, rfl⟩
    exact ⟨d, ⟨hd, hj⟩, rfl⟩
  · rintro ⟨d, ⟨hd, -⟩, rfl⟩
    exact ⟨d, hd, rfl⟩

theorem TimedBut.gone (h : TimedBut ticket now ts ds) (hticket : ticket ∉ ts) :
    Timed now ts (ds.filter fun d => d.ticket ≠ ticket) := by
  refine ⟨fun j => ?_, h.filter.due⟩
  by_cases hj : j = ticket
  · subst hj
    simp [hticket]
  · exact h.filter.tickets j hj

theorem TimedBut.renewed (h : TimedBut ticket now ts ds) (hticket : ticket ∈ ts) (start : Nat) {due : Nat}
    (hdue : now ≤ due) : Timed now ts ((ds.filter fun d => d.ticket ≠ ticket) ++ [⟨ticket, start, due⟩]) := by
  refine ⟨fun j => ?_, fun d hd => ?_⟩
  · rw [List.map_append, List.mem_append]
    by_cases hj : j = ticket
    · simp [hj, hticket]
    · rw [h.filter.tickets j hj]
      simp [hj]
  · rcases List.mem_append.1 hd with hd | hd
    · exact h.filter.due d hd
    · rw [List.mem_singleton.1 hd]
      exact hdue

end Deadlines

namespace Schedule
variable {ρ σ : Type} {link : Link ρ σ} {s s' : Schedule ρ σ} {h : History Job} {ticket : Nat}
  {t : Delivery Job} {rest : List (Delivery Job)}

/-- Between two moments each delivery has its deadline. -/
def IsTimed (s : Schedule ρ σ) : Prop := Timed s.now s.pool.tickets s.deadlines

def IsTimedBut (ticket : Nat) (s : Schedule ρ σ) : Prop :=
  TimedBut ticket s.now s.pool.tickets s.deadlines

theorem nodup_tickets (hp : h.Tells s.pool) : s.pool.tickets.Nodup :=
  (List.nodup_append.1 hp.nodup_handled).1

section Sends
variable (hpick : Pool.pick? ticket s.pool.deliveries = some (t, rest)) (hnodup : s.pool.tickets.Nodup)
  (htimed : s.IsTimedBut ticket)
include hpick hnodup htimed

theorem isTimed_giveUp (hphase : t.phase = .waiting) (hcancelled : s.pool.isCancelled) :
    (s.giveUp ticket).IsTimed := by
  have hstep : s.pool.step? (.giveUp ticket) = some (s.pool.conclude t rest false) := by
    simp [Pool.step?, hpick, hphase, hcancelled]
  have htickets := Pool.mem_tickets_rest hpick hnodup (q := s.pool.conclude t rest false) rfl
  rw [giveUp, act_of_some hstep]
  have hbut : TimedBut ticket s.now (s.pool.conclude t rest false).tickets s.deadlines :=
    ⟨fun j hj => ((htickets j).trans (and_iff_left hj)).trans (htimed.tickets j hj), htimed.due⟩
  exact hbut.gone fun hmem => ((htickets ticket).1 hmem).2 rfl

theorem isTimed_pause (hphase : t.phase = .waiting)
    (hdelay : (s.pool.policy.delay? (t.sends - 1)).isSome) : (s.pause ticket).IsTimed := by
  obtain ⟨d, hd⟩ := Option.isSome_iff_exists.1 hdelay
  simp only [pause, delivery?_of_pick? hpick, hd]
  split
  · next hcancelled => exact isTimed_giveUp hpick hnodup htimed hphase hcancelled
  · exact htimed.renewed (Pool.mem_tickets hpick) s.now (Nat.le_add_right _ _)

variable (link)

theorem isTimed_endSend (hphase : t.phase = .sending) (start : Nat) :
    (s.endSend link ticket start).IsTimed := by
  rcases Pool.step?_finish hpick hphase (link.outcome (link.send t.job s.peer).1) with
    ⟨hdelay, hstep⟩ | ⟨q, hstep, hq⟩
  · have hticket : t.ticket = ticket := Pool.ticket_of_pick? hpick
    have hperm := Pool.tickets_proceed_perm hpick (u := { t with phase := .waiting }) hticket
    have hbut : TimedBut ticket s.now (s.pool.proceed { t with phase := .waiting } rest).tickets
        s.deadlines := ⟨fun j hj => hperm.mem_iff.trans (htimed.tickets j hj), htimed.due⟩
    rw [endSend_of_pick? start hpick hstep]
    exact isTimed_pause (s := dropDeadline ticket { s with
      pool := s.pool.proceed { t with phase := .waiting } rest, peer := (link.send t.job s.peer).2
      sent := s.sent ++ [⟨start, t.job, (link.send t.job s.peer).1⟩] })
      (Pool.pick?_proceed hpick hnodup hticket) (hperm.nodup_iff.2 hnodup) hbut.filter rfl hdelay
  · have htickets := Pool.mem_tickets_rest hpick hnodup hq
    have hnone : Pool.pick? ticket q.deliveries = none :=
      hq ▸ Pool.pick?_eq_none (Pool.not_mem_rest hpick hnodup)
    have hbut : TimedBut ticket s.now q.tickets s.deadlines :=
      ⟨fun j hj => ((htickets j).trans (and_iff_left hj)).trans (htimed.tickets j hj), htimed.due⟩
    rw [endSend_of_pick? start hpick hstep]
    simp only [pause, delivery?, dropDeadline, hnone, Option.map_none]
    exact hbut.gone fun hmem => ((htickets ticket).1 hmem).2 rfl

theorem isTimed_beginSend (hphase : t.phase = .sending) : (s.beginSend link ticket).IsTimed := by
  simp only [beginSend]
  split
  · exact isTimed_endSend link (s := { s with maxInFlight := max s.maxInFlight s.pool.inFlight }) hpick
      hnodup htimed hphase _
  · exact htimed.renewed (Pool.mem_tickets hpick) s.now (Nat.le_add_right _ _)

end Sends

section Settling
variable (link)

theorem isTimed_take {worker : Nat} {pool : Pool Job} (hp : h.Tells s.pool) (htimed : s.IsTimed)
    {job : Job} {items : List (Nat × Job)} (hqueue : s.pool.queue = (ticket, job) :: items)
    (htake : s.pool.step? (.take worker) = some pool) :
    (beginSend link ticket { s with pool }).IsTimed := by
  have hmoves := Pool.moves_of_step? htake
  have hp' := hp.step hmoves
  cases hmoves with
  | @take worker ticket' job' items' hqueue' hworker hfree =>
    obtain ⟨⟨rfl, rfl⟩, rfl⟩ : (ticket' = ticket ∧ job' = job) ∧ items' = items := by
      simpa using hqueue'.symm.trans hqueue
    have hnodup := nodup_tickets (s := { s with pool := _ }) hp'
    have hnew : ticket' ∉ s.pool.deliveries.map Delivery.ticket := by
      simp only [Pool.tickets, List.map_append, List.map_singleton] at hnodup
      exact fun hmem => (List.nodup_append.1 hnodup).2.2 _ hmem _ (List.mem_singleton_self _) rfl
    refine isTimed_beginSend link (s := { s with pool := _ }) (Pool.pick?_append rfl hnew) hnodup
      (htimed.but fun j hj => ?_) rfl
    simp [Pool.tickets, hj]

theorem isTimed_settle (fuel : Nat) (hp : h.Tells s.pool) (htimed : s.IsTimed) :
    (s.settle link fuel).IsTimed := by
  induction fuel generalizing s h with
  | zero => exact htimed
  | succ fuel ih =>
    rw [settle]
    split
    · next pool haccept =>
      have hmoves := Pool.moves_of_step? haccept
      have htickets : pool.tickets = s.pool.tickets := by
        cases hmoves with
        | accept => rfl
      exact ih (s := { s with pool }) (hp.step hmoves) (by simpa only [IsTimed, htickets] using htimed)
    · split
      · next worker ticket job items hworker hqueue =>
        obtain ⟨hlt, hfree⟩ := Pool.freeWorker?_eq_some hworker
        obtain ⟨pool, htake⟩ := Pool.exists_take (hqueue ▸ List.cons_ne_nil _ _) hlt hfree
        rw [act_of_some htake]
        obtain ⟨h', hp'⟩ := (serves_beginSend link { s with pool } ticket).works.exists_tells
          (hp.step (Pool.moves_of_step? htake))
        exact ih hp' (isTimed_take link hp htimed hqueue htake)
      · split
        · next hdeserted =>
          rw [Bool.and_eq_true] at hdeserted
          rw [act_of_some (Pool.step?_close (.inr (.inl hdeserted.1)))]
          exact htimed
        · exact htimed

theorem isSettled_settle {fuel : Nat}
    (hfuel : 2 * s.pool.pending.length + s.pool.queue.length < fuel) :
    (s.settle link fuel).pool.IsSettled := by
  induction fuel generalizing s with
  | zero => cases hfuel
  | succ fuel ih =>
    rw [settle]
    split
    · next pool haccept =>
      refine ih ?_
      cases Pool.moves_of_step? haccept with
      | accept hpending hroom hopen =>
        rw [hpending, List.length_cons] at hfuel
        simp only [List.length_append, List.length_singleton]
        omega
    · next haccept =>
      split
      · next worker ticket job items hworker hqueue =>
        obtain ⟨hlt, hfree⟩ := Pool.freeWorker?_eq_some hworker
        obtain ⟨pool, htake⟩ := Pool.exists_take (hqueue ▸ List.cons_ne_nil _ _) hlt hfree
        rw [act_of_some htake]
        obtain ⟨hpending, hqueue', -, -, -, -⟩ := (serves_beginSend link { s with pool } ticket).sameQueue
        refine ih ?_
        rw [hpending, hqueue']
        cases Pool.moves_of_step? htake with
        | take hitems =>
          rw [hitems, List.length_cons] at hfuel
          simp only
          omega
      · next hstop =>
        have htake : s.pool.queue ≠ [] → s.pool.freeWorker? = none := by
          intro hne
          obtain ⟨⟨ticket, job⟩, items, hitems⟩ := List.exists_cons_of_ne_nil hne
          exact Option.eq_none_iff_forall_ne_some.2 fun worker hworker =>
            hstop worker ticket job items hworker hitems
        split
        · next hdeserted =>
          rw [Bool.and_eq_true] at hdeserted
          rw [act_of_some (Pool.step?_close (.inr (.inl hdeserted.1)))]
          exact ⟨rfl, htake, fun _ => rfl⟩
        · next hwaits =>
          refine ⟨haccept, htake, fun hdeserted => ?_⟩
          simpa [hdeserted] using hwaits

theorem isSettled_settled (s : Schedule ρ σ) : (s.settled link).pool.IsSettled :=
  isSettled_settle link (Nat.lt_succ_self _)

end Settling

end Schedule

end Telemetry.Agent
