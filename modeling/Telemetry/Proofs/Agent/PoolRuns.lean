import Mathlib.Data.List.Count
import Telemetry.Proofs.Agent.PoolSteps

/-!
Runs of a pool. A history notes what is seen of the jobs while a pool does its steps: what each cycle
brings, what is accepted, taken and dropped, and when sends begin and end. Along every run each accepted
job is taken once and in its turn, and the worker that takes it has no other job until a send is the last.
-/
namespace Telemetry.Agent

/-- What has been seen of the jobs in a pool. Accepted jobs stand with their tickets, those that have been
taken with the workers that took them. -/
structure History (α : Type) where
  cycles : List (List α) := []
  accepted : List (Nat × α) := []
  taken : List (Nat × Nat × α) := []
  /-- The tickets of the sends that have begun. -/
  begun : List Nat := []
  /-- The tickets of the sends that have ended. -/
  ended : List (Nat × Outcome) := []
  /-- The jobs that were left when the queue was closed. -/
  dropped : List α := []
deriving DecidableEq

namespace Pool
variable {α : Type}

/-- Adds what there is to see when a pool does a step. -/
def note (p : Pool α) (h : History α) : PoolStep α → History α
  | .offer jobs => { h with cycles := h.cycles ++ [jobs] }
  | .accept => { h with accepted := h.accepted ++ p.pending.head?.toList.map fun job => (p.accepted, job) }
  | .take worker => { h with
      taken := h.taken ++ p.queue.head?.toList.map fun item => (worker, item)
      begun := h.begun ++ p.queue.head?.toList.map Prod.fst }
  | .finish ticket outcome => { h with ended := h.ended ++ [(ticket, outcome)] }
  | .resend ticket => { h with begun := h.begun ++ [ticket] }
  | .giveUp _ => h
  | .cancel => h
  | .close => { h with dropped := h.dropped ++ p.pending }

def watch? (p : Pool α) (h : History α) : List (PoolStep α) → Option (Pool α × History α)
  | [] => some (p, h)
  | s :: ss => (p.step? s).bind fun q => q.watch? (p.note h s) ss

end Pool

namespace Delivery
variable {α : Type} {t : Delivery α}

def item (t : Delivery α) : Nat × Nat × α := (t.worker, t.ticket, t.job)

/-- One while a send is under way. -/
def underWay (t : Delivery α) : Nat := if t.phase = .sending then 1 else 0

theorem underWay_sending (h : t.phase = .sending) : t.underWay = 1 := if_pos h

theorem underWay_waiting (h : t.phase = .waiting) : t.underWay = 0 := if_neg (by simp [h])

end Delivery

def Finished.item {α : Type} (f : Finished α) : Nat × Nat × α := (f.worker, f.ticket, f.job)

namespace Pool
variable {α : Type} {p q : Pool α} {ticket : Nat} {t u : Delivery α} {rest : List (Delivery α)}

/-- Each worker has one job at most or has panicked, and it panics only at a wait that is too long. -/
structure IsStaffed (p : Pool α) : Prop where
  nodup : p.occupied.Nodup
  lt : ∀ worker ∈ p.occupied, worker < p.workers
  panics : p.panicked ≠ [] → ∃ i < p.policy.maxRetries, p.policy.delay? i = none

theorem occupied_perm (hpick : pick? ticket p.deliveries = some (t, rest)) :
    p.occupied.Perm (t.worker :: (rest.map Delivery.worker ++ p.panicked)) :=
  ((perm_of_pick? hpick).map Delivery.worker).append_right _

theorem occupied_proceed_perm (hpick : pick? ticket p.deliveries = some (t, rest))
    (hworker : u.worker = t.worker) : (p.proceed u rest).occupied.Perm p.occupied := by
  refine List.Perm.trans ?_ (occupied_perm hpick).symm
  rw [occupied, proceed, List.map_append, List.append_assoc, ← hworker]
  exact List.perm_middle

theorem occupied_panic_perm (hpick : pick? ticket p.deliveries = some (t, rest)) :
    (p.panic t rest).occupied.Perm p.occupied := by
  refine List.Perm.trans ?_ (occupied_perm hpick).symm
  rw [occupied, panic, ← List.append_assoc]
  exact List.perm_append_singleton _ _

theorem occupied_conclude_subperm (hpick : pick? ticket p.deliveries = some (t, rest)) (isDelivered : Bool) :
    (p.conclude t rest isDelivered).occupied.Subperm p.occupied :=
  (List.sublist_cons_self _ _).subperm.trans (occupied_perm hpick).symm.subperm

theorem IsStaffed.of_subperm (hp : p.IsStaffed) (hworkers : q.workers = p.workers)
    (hoccupied : q.occupied.Subperm p.occupied)
    (hpanics : q.panicked ≠ [] → ∃ i < q.policy.maxRetries, q.policy.delay? i = none) : q.IsStaffed where
  nodup :=
    have ⟨_, hperm, hsublist⟩ := hoccupied
    hperm.nodup_iff.1 (hp.nodup.sublist hsublist)
  lt worker hworker := hworkers ▸ hp.lt worker (hoccupied.subset hworker)
  panics := hpanics

theorem IsStaffed.step {step : PoolStep α} (hp : p.IsStaffed) (hpos : ∀ t ∈ p.deliveries, 0 < t.sends)
    (hstep : p.Moves step q) : q.IsStaffed := by
  cases hstep with
  | offer hpending hopen => exact { hp with }
  | accept hpending hroom hopen halive => exact { hp with }
  | @take worker ticket job rest hqueue hworker hfree =>
    have hperm : ((p.deliveries ++ [(⟨worker, ticket, job, 1, .sending⟩ : Delivery α)]).map
        Delivery.worker ++ p.panicked).Perm (worker :: p.occupied) := by
      rw [List.map_append, List.append_assoc]
      exact List.perm_middle
    exact ⟨hperm.nodup_iff.2 (List.nodup_cons.2 ⟨hfree, hp.nodup⟩),
      fun other hother => (List.mem_cons.1 (hperm.mem_iff.1 hother)).elim (· ▸ hworker) (hp.lt other),
      hp.panics⟩
  | wait hpick hphase hsends hdelay =>
    exact hp.of_subperm rfl (occupied_proceed_perm hpick (by rfl)).subperm hp.panics
  | @panic ticket t rest hpick hphase hsends hdelay =>
    have ht := hpos t ((perm_of_pick? hpick).mem_iff.2 List.mem_cons_self)
    exact hp.of_subperm rfl (occupied_panic_perm hpick).subperm fun _ =>
      ⟨t.sends - 1, Nat.lt_of_lt_of_le (Nat.sub_lt ht Nat.one_pos) hsends, hdelay⟩
  | finish hpick hphase hlast => exact hp.of_subperm rfl (occupied_conclude_subperm hpick _) hp.panics
  | resend hpick hphase =>
    exact hp.of_subperm rfl (occupied_proceed_perm hpick (by rfl)).subperm hp.panics
  | giveUp hpick hphase hcancelled =>
    exact hp.of_subperm rfl (occupied_conclude_subperm hpick _) hp.panics
  | cancel => exact { hp with }
  | close hdone => exact { hp with }

theorem IsStaffed.length_le (hp : p.IsStaffed) : p.occupied.length ≤ p.workers := by
  have hsubperm : p.occupied.Subperm (List.range p.workers) :=
    List.subperm_of_subset hp.nodup fun worker hworker => List.mem_range.2 (hp.lt worker hworker)
  simpa using hsubperm.length_le

theorem IsStaffed.length_deliveries_le (hp : p.IsStaffed) : p.deliveries.length ≤ p.workers :=
  Nat.le_trans (by simp [occupied]) hp.length_le

theorem IsStaffed.inFlight_le (hp : p.IsStaffed) : p.inFlight ≤ p.workers :=
  Nat.le_trans List.countP_le_length hp.length_deliveries_le

end Pool

namespace History
variable {α : Type} {h : History α} {t : Delivery α} {f : Finished α}

/-- What has been taken, in the order of the tickets. -/
def turns (h : History α) : List (Nat × α) := h.taken.map Prod.snd

/-- The number of sends with a ticket that have ended. -/
def ends (h : History α) (ticket : Nat) : Nat := (h.ended.map Prod.fst).count ticket

/-- The sends of a delivery are those that have been seen. -/
structure Follows (h : History α) (maxRetries : Nat) (t : Delivery α) : Prop where
  begun : h.begun.count t.ticket = t.sends
  ended : h.ends t.ticket + t.underWay = t.sends
  pos : 0 < t.sends
  le : t.sends ≤ maxRetries + t.underWay

structure Concludes (h : History α) (maxRetries : Nat) (f : Finished α) : Prop where
  begun : h.begun.count f.ticket = f.sends
  ended : h.ends f.ticket = f.sends
  pos : 0 < f.sends
  le : f.sends ≤ maxRetries + 1

/-- Jobs are accepted and taken in their turn, each under a ticket of its own. -/
structure Queues (h : History α) (p : Pool α) : Prop where
  tickets : h.accepted.map Prod.fst = List.range p.accepted
  turns : h.turns ++ p.queue = h.accepted
  jobs : h.accepted.map Prod.snd ++ (h.dropped ++ p.pending) = h.cycles.flatten
  cut : h.dropped ++ p.pending <:+ h.cycles.getLast?.getD []
  dropped : h.dropped ≠ [] → p.isCancelled ∨ p.isDeserted
  opened : p.isClosed = false → h.dropped = []
  closed : p.isClosed → p.pending = []

/-- Each job that has been taken is with a worker or over, and was sent as often as this says. -/
structure Handles (h : History α) (p : Pool α) : Prop where
  items : (p.deliveries.map Delivery.item ++ p.finished.map Finished.item).Perm h.taken
  deliveries : ∀ t ∈ p.deliveries, h.Follows p.policy.maxRetries t
  finished : ∀ f ∈ p.finished, h.Concludes p.policy.maxRetries f
  others : ∀ ticket, ticket ∉ h.turns.map Prod.fst →
    h.begun.count ticket = 0 ∧ h.ends ticket = 0

/-- What a history tells about the pool that it has led to. -/
structure Tells (h : History α) (p : Pool α) : Prop where
  queues : h.Queues p
  handles : h.Handles p
  staffed : p.IsStaffed

section Steps
variable {p q : Pool α} {h' : History α} {u : Delivery α} {rest : List (Delivery α)} {ticket : Nat}

theorem Queues.nodup (hp : h.Queues p) : ((h.turns ++ p.queue).map Prod.fst).Nodup :=
  hp.turns ▸ hp.tickets ▸ List.nodup_range

theorem Queues.not_mem_turns (hp : h.Queues p) {item : Nat × α} (hitem : item ∈ p.queue) :
    item.1 ∉ h.turns.map Prod.fst := by
  have hnodup := hp.nodup
  rw [List.map_append] at hnodup
  exact fun hturn => (List.nodup_append.1 hnodup).2.2 _ hturn _ (List.mem_map_of_mem hitem) rfl

theorem Handles.tickets_perm (hp : h.Handles p) :
    (p.deliveries.map Delivery.ticket ++ p.finished.map Finished.ticket).Perm (h.turns.map Prod.fst) := by
  have hperm := hp.items.map fun item => item.2.1
  rw [List.map_append, List.map_map, List.map_map] at hperm
  rw [turns, List.map_map]
  exact hperm

theorem Tells.nodup_handled (hp : h.Tells p) :
    (p.deliveries.map Delivery.ticket ++ p.finished.map Finished.ticket).Nodup := by
  have hnodup := hp.queues.nodup
  rw [List.map_append] at hnodup
  exact hp.handles.tickets_perm.nodup_iff.2 (List.nodup_append.1 hnodup).1

theorem Tells.apart (hp : h.Tells p) (hpick : Pool.pick? ticket p.deliveries = some (t, rest)) :
    (∀ u ∈ rest, u.ticket ≠ ticket) ∧ ∀ f ∈ p.finished, f.ticket ≠ ticket := by
  have hperm := ((Pool.perm_of_pick? hpick).map Delivery.ticket).append_right
    (p.finished.map Finished.ticket)
  have hnodup := hperm.nodup_iff.1 hp.nodup_handled
  rw [List.map_cons, List.cons_append, List.nodup_cons, Pool.ticket_of_pick? hpick, List.mem_append,
    not_or] at hnodup
  refine ⟨fun u hu heq => ?_, fun f hf heq => ?_⟩
  · exact hnodup.1.1 (heq ▸ List.mem_map_of_mem hu)
  · exact hnodup.1.2 (heq ▸ List.mem_map_of_mem hf)

theorem Handles.mem_turns (hp : h.Handles p) (ht : t ∈ p.deliveries) : (t.ticket, t.job) ∈ h.turns := by
  have hitem : t.item ∈ h.taken :=
    hp.items.mem_iff.1 (List.mem_append_left _ (List.mem_map_of_mem ht))
  exact List.mem_map_of_mem (f := Prod.snd) hitem

theorem Handles.of_pick? (hp : h.Handles p) (hpick : Pool.pick? ticket p.deliveries = some (t, rest)) :
    h.Follows p.policy.maxRetries t ∧ t.ticket = ticket :=
  ⟨hp.deliveries t ((Pool.perm_of_pick? hpick).mem_iff.2 List.mem_cons_self), Pool.ticket_of_pick? hpick⟩

/-- Of a job the same sends have been seen. -/
def SameSends (h h' : History α) (ticket : Nat) : Prop :=
  h'.begun.count ticket = h.begun.count ticket ∧ h'.ends ticket = h.ends ticket

theorem Follows.congr {n : Nat} (ht : h.Follows n t) (hh : h.SameSends h' t.ticket) : h'.Follows n t :=
  ⟨hh.1.trans ht.begun, hh.2.symm ▸ ht.ended, ht.pos, ht.le⟩

theorem Concludes.congr {n : Nat} (hf : h.Concludes n f) (hh : h.SameSends h' f.ticket) :
    h'.Concludes n f :=
  ⟨hh.1.trans hf.begun, hh.2.trans hf.ended, hf.pos, hf.le⟩

/-- The second history differs from the first in the sends of one job only. -/
structure Beside (h h' : History α) (ticket : Nat) : Prop where
  cycles : h'.cycles = h.cycles
  accepted : h'.accepted = h.accepted
  taken : h'.taken = h.taken
  dropped : h'.dropped = h.dropped
  sends : ∀ other, other ≠ ticket → h.SameSends h' other

theorem Beside.turns (hh : h.Beside h' ticket) : h'.turns = h.turns :=
  congrArg (List.map Prod.snd) hh.taken

theorem Queues.congr (hp : h.Queues p) (hh : h.Beside h' ticket) (hqueue : q.queue = p.queue)
    (hpending : q.pending = p.pending) (haccepted : q.accepted = p.accepted)
    (hclosed : q.isClosed = p.isClosed) (hcancelled : p.isCancelled → q.isCancelled)
    (hdeserted : p.isDeserted → q.isDeserted) : h'.Queues q where
  tickets := by rw [hh.accepted, haccepted, hp.tickets]
  turns := by rw [hh.turns, hqueue, hh.accepted, hp.turns]
  jobs := by rw [hh.accepted, hh.dropped, hpending, hh.cycles, hp.jobs]
  cut := by
    rw [hh.dropped, hpending, hh.cycles]
    exact hp.cut
  dropped hdropped := (hp.dropped (hh.dropped ▸ hdropped)).imp hcancelled hdeserted
  opened hopen := hh.dropped.trans (hp.opened (hclosed ▸ hopen))
  closed hclosed' := hpending.trans (hp.closed (hclosed ▸ hclosed'))

theorem Handles.congr (hp : h.Handles p) (h' : History α) (htaken : h'.taken = h.taken)
    (hh : ∀ ticket, h.SameSends h' ticket) {pending : List α} {queue : List (Nat × α)} {n : Nat}
    {isCancelled isClosed : Bool} :
    h'.Handles { p with pending, queue, accepted := n, isCancelled, isClosed } := by
  refine ⟨htaken ▸ hp.items, ?_, ?_, ?_⟩
  · exact fun t ht => (hp.deliveries t ht).congr (hh _)
  · exact fun f hf => (hp.finished f hf).congr (hh _)
  · intro ticket hticket
    rw [(hh ticket).1, (hh ticket).2]
    exact hp.others ticket (by rwa [turns, htaken] at hticket)

theorem Handles.others_beside (hp : h.Handles p) (hh : h.Beside h' t.ticket) (ht : t ∈ p.deliveries)
    (other : Nat) (hother : other ∉ h'.turns.map Prod.fst) :
    h'.begun.count other = 0 ∧ h'.ends other = 0 := by
  rw [hh.turns] at hother
  have hne : other ≠ t.ticket := fun heq =>
    hother (heq ▸ List.mem_map_of_mem (f := Prod.fst) (hp.mem_turns ht))
  rw [(hh.sends other hne).1, (hh.sends other hne).2]
  exact hp.others other hother

section Picked
variable (hp : h.Tells p) (hpick : Pool.pick? t.ticket p.deliveries = some (t, rest))
  (hh : h.Beside h' t.ticket)
include hp hpick hh

theorem handles_proceed (hitem : u.item = t.item) (hu : h'.Follows p.policy.maxRetries u) :
    h'.Handles (p.proceed u rest) := by
  obtain ⟨hrest, hfinished⟩ := hp.apart hpick
  have hperm := Pool.perm_of_pick? hpick
  refine ⟨?_, ?_, ?_, ?_⟩
  · have hmove : ((rest ++ [u]).map Delivery.item).Perm (p.deliveries.map Delivery.item) := by
      refine ((List.perm_append_singleton u rest).map _).trans ?_
      rw [List.map_cons, hitem, ← List.map_cons]
      exact (hperm.map _).symm
    exact hh.taken ▸ (hmove.append_right _).trans hp.handles.items
  · intro v hv
    rcases List.mem_append.1 hv with hv | hv
    · have hv' : v ∈ p.deliveries := hperm.mem_iff.2 (List.mem_cons_of_mem _ hv)
      exact (hp.handles.deliveries v hv').congr (hh.sends _ (hrest v hv))
    · exact List.mem_singleton.1 hv ▸ hu
  · exact fun f hf => (hp.handles.finished f hf).congr (hh.sends _ (hfinished f hf))
  · exact hp.handles.others_beside hh (hperm.mem_iff.2 List.mem_cons_self)

theorem handles_conclude (isDelivered : Bool)
    (hf : h'.Concludes p.policy.maxRetries ⟨t.worker, t.ticket, t.job, t.sends, isDelivered⟩) :
    h'.Handles (p.conclude t rest isDelivered) := by
  obtain ⟨hrest, hfinished⟩ := hp.apart hpick
  have hperm := Pool.perm_of_pick? hpick
  refine ⟨?_, ?_, ?_, ?_⟩
  · have hmove : (rest.map Delivery.item ++ (p.finished.map Finished.item ++ [t.item])).Perm
        (p.deliveries.map Delivery.item ++ p.finished.map Finished.item) := by
      refine (List.Perm.trans ?_ ((hperm.map _).append_right _).symm)
      rw [← List.append_assoc, List.map_cons, List.cons_append]
      exact List.perm_append_singleton _ _
    rw [Pool.conclude, List.map_append]
    exact hh.taken ▸ hmove.trans hp.handles.items
  · intro v hv
    have hv' : v ∈ p.deliveries := hperm.mem_iff.2 (List.mem_cons_of_mem _ hv)
    exact (hp.handles.deliveries v hv').congr (hh.sends _ (hrest v hv))
  · intro g hg
    rcases List.mem_append.1 hg with hg | hg
    · exact (hp.handles.finished g hg).congr (hh.sends _ (hfinished g hg))
    · exact List.mem_singleton.1 hg ▸ hf
  · exact hp.handles.others_beside hh (hperm.mem_iff.2 List.mem_cons_self)

end Picked

theorem Tells.handles_take (hp : h.Tells p) {job : α} {items : List (Nat × α)}
    (hqueue : p.queue = (ticket, job) :: items) (worker : Nat) :
    Handles { h with taken := h.taken ++ [(worker, ticket, job)], begun := h.begun ++ [ticket] }
      { p with queue := items, deliveries := p.deliveries ++ [⟨worker, ticket, job, 1, .sending⟩] } := by
  have hfirst : (ticket, job) ∈ p.queue := hqueue ▸ List.mem_cons_self
  have hnew : ticket ∉ h.turns.map Prod.fst := hp.queues.not_mem_turns hfirst
  obtain ⟨hbegun, hended⟩ := hp.handles.others ticket hnew
  have hsends : ∀ other, other ≠ ticket → h.SameSends
      { h with taken := h.taken ++ [(worker, ticket, job)], begun := h.begun ++ [ticket] } other :=
    fun other hne => ⟨by simp [List.count_append, hne.symm], rfl⟩
  have htickets : ∀ other ∈ p.deliveries.map Delivery.ticket ++ p.finished.map Finished.ticket,
      other ≠ ticket := fun other hother heq =>
    hnew (heq ▸ hp.handles.tickets_perm.mem_iff.1 hother)
  refine ⟨?_, ?_, ?_, ?_⟩
  · rw [List.map_append, List.append_assoc]
    refine List.perm_middle.trans ?_
    exact (hp.handles.items.cons _).trans (List.perm_append_singleton _ _).symm
  · intro t ht
    rcases List.mem_append.1 ht with ht | ht
    · exact (hp.handles.deliveries t ht).congr
        (hsends _ (htickets _ (List.mem_append_left _ (List.mem_map_of_mem ht))))
    · obtain rfl := List.mem_singleton.1 ht
      exact ⟨by simp [List.count_append, hbegun],
        by rw [ends] at hended ⊢; simp [hended, Delivery.underWay], Nat.one_pos, by simp [Delivery.underWay]⟩
  · exact fun f hf => (hp.handles.finished f hf).congr
      (hsends _ (htickets _ (List.mem_append_right _ (List.mem_map_of_mem hf))))
  · intro other hother
    rw [turns, List.map_append, List.map_append, List.mem_append, not_or] at hother
    have hne : other ≠ ticket := fun heq => hother.2 (heq ▸ List.mem_singleton_self _)
    rw [(hsends other hne).1, (hsends other hne).2]
    exact hp.handles.others other hother.1

theorem beside_self (h : History α) (ticket : Nat) : h.Beside h ticket :=
  ⟨rfl, rfl, rfl, rfl, fun _ _ => ⟨rfl, rfl⟩⟩

theorem beside_begun (h : History α) (ticket : Nat) :
    h.Beside { h with begun := h.begun ++ [ticket] } ticket :=
  ⟨rfl, rfl, rfl, rfl, fun _ hne => ⟨by simp [List.count_append, hne.symm], rfl⟩⟩

theorem beside_ended (h : History α) (ticket : Nat) (outcome : Outcome) :
    h.Beside { h with ended := h.ended ++ [(ticket, outcome)] } ticket :=
  ⟨rfl, rfl, rfl, rfl, fun _ hne => ⟨rfl, by simp [ends, List.count_append, hne.symm]⟩⟩

theorem ends_append (h : History α) (ticket : Nat) (outcome : Outcome) :
    ends { h with ended := h.ended ++ [(ticket, outcome)] } ticket = h.ends ticket + 1 := by
  simp [ends, List.count_append]

/-- What a history tells of the queue is true after every step. -/
theorem Queues.step {step : PoolStep α} (hp : h.Queues p) (hstep : p.Moves step q) :
    (p.note h step).Queues q := by
  cases hstep with
  | @offer jobs hpending hopen =>
    have hdropped := hp.opened hopen
    refine { hp with jobs := ?_, cut := ?_, closed := ?_ }
    · have hjobs := hp.jobs
      rw [hpending, List.append_nil] at hjobs
      simp [Pool.note, ← hjobs]
    · simp [Pool.note, hdropped]
    · simp [hopen]
  | @accept job rest hpending hroom hopen halive =>
    have hdropped := hp.opened hopen
    have haccepted : (p.note h .accept).accepted = h.accepted ++ [(p.accepted, job)] := by
      simp [Pool.note, hpending]
    have hjobs := hp.jobs
    have hcut := hp.cut
    rw [hdropped, hpending, List.nil_append] at hjobs hcut
    refine { hp with tickets := ?_, turns := ?_, jobs := ?_, cut := ?_, closed := ?_ }
    · rw [haccepted, List.map_append, hp.tickets, List.range_succ]
      rfl
    · rw [haccepted, ← hp.turns, ← List.append_assoc]
      rfl
    · rw [haccepted, List.map_append, List.append_assoc]
      exact hdropped ▸ hjobs
    · rw [show (p.note h .accept).dropped = [] from hdropped, List.nil_append]
      exact (List.suffix_cons job rest).trans hcut
    · simp [hopen]
  | @take worker ticket job items hqueue =>
    have hturns : (p.note h (.take worker)).turns = h.turns ++ [(ticket, job)] := by
      rw [Pool.note, hqueue]
      exact List.map_append
    refine { hp with turns := ?_ }
    rw [hturns, List.append_assoc, List.singleton_append, ← hqueue]
    exact hp.turns
  | wait hpick => exact hp.congr (h.beside_ended _ _) rfl rfl rfl rfl id id
  | panic hpick =>
    exact hp.congr (h.beside_ended _ _) rfl rfl rfl rfl id
      (Pool.isDeserted_of_subset rfl (List.subset_append_left _ _))
  | finish hpick => exact hp.congr (h.beside_ended _ _) rfl rfl rfl rfl id id
  | @resend ticket => exact hp.congr (h.beside_begun ticket) rfl rfl rfl rfl id id
  | @giveUp ticket => exact hp.congr (h.beside_self ticket) rfl rfl rfl rfl id id
  | cancel => exact { hp with dropped := fun _ => .inl rfl }
  | close hdone =>
    refine { hp with jobs := ?_, cut := ?_, dropped := ?_, opened := ?_, closed := fun _ => rfl }
    · simpa [Pool.note] using hp.jobs
    · simpa [Pool.note] using hp.cut
    · intro hdropped
      rcases hdone with hdone | hdone | hdone
      · exact .inl hdone
      · exact .inr hdone
      · rw [Pool.note, hdone, List.append_nil] at hdropped
        exact hp.dropped hdropped
    · intro hopen
      cases hopen

theorem Tells.handles_step {step : PoolStep α} (hp : h.Tells p) (hstep : p.Moves step q) :
    (p.note h step).Handles q := by
  cases hstep with
  | @offer jobs => exact hp.handles.congr (p.note h (.offer jobs)) rfl fun _ => ⟨rfl, rfl⟩
  | accept => exact hp.handles.congr (p.note h .accept) rfl fun _ => ⟨rfl, rfl⟩
  | @take worker ticket job items hqueue =>
    have hnote : p.note h (.take worker) = { h with
        taken := h.taken ++ [(worker, ticket, job)], begun := h.begun ++ [ticket] } := by
      rw [Pool.note, hqueue]
      rfl
    exact hnote ▸ hp.handles_take hqueue worker
  | wait hpick hphase hsends =>
    obtain ⟨ht, rfl⟩ := hp.handles.of_pick? hpick
    have hended := ht.ended
    rw [Delivery.underWay_sending hphase] at hended
    exact handles_proceed hp hpick (h.beside_ended _ _) rfl
      ⟨ht.begun, (ends_append h _ _).trans hended, ht.pos, hsends⟩
  | panic hpick hphase hsends =>
    obtain ⟨ht, rfl⟩ := hp.handles.of_pick? hpick
    have hended := ht.ended
    rw [Delivery.underWay_sending hphase] at hended
    exact { handles_conclude hp hpick (h.beside_ended _ _) false
      ⟨ht.begun, (ends_append h _ _).trans hended, ht.pos, Nat.le_succ_of_le hsends⟩ with }
  | finish hpick hphase hlast =>
    obtain ⟨ht, rfl⟩ := hp.handles.of_pick? hpick
    have hended := ht.ended
    have hle := ht.le
    rw [Delivery.underWay_sending hphase] at hended hle
    exact handles_conclude hp hpick (h.beside_ended _ _) _
      ⟨ht.begun, (ends_append h _ _).trans hended, ht.pos, hle⟩
  | resend hpick hphase =>
    obtain ⟨ht, rfl⟩ := hp.handles.of_pick? hpick
    have hended := ht.ended
    have hle := ht.le
    rw [Delivery.underWay_waiting hphase] at hended hle
    refine handles_proceed hp hpick (h.beside_begun _) rfl ⟨?_, ?_, Nat.succ_pos _, ?_⟩
    · simp [Pool.note, List.count_append, ht.begun]
    · exact congrArg (· + 1) hended
    · exact Nat.succ_le_succ hle
  | giveUp hpick hphase =>
    obtain ⟨ht, rfl⟩ := hp.handles.of_pick? hpick
    have hended := ht.ended
    have hle := ht.le
    rw [Delivery.underWay_waiting hphase] at hended hle
    exact handles_conclude hp hpick (h.beside_self _) _
      ⟨ht.begun, hended, ht.pos, Nat.le_succ_of_le hle⟩
  | cancel => exact { hp.handles with }
  | close => exact hp.handles.congr (p.note h .close) rfl fun _ => ⟨rfl, rfl⟩

theorem Tells.step {step : PoolStep α} (hp : h.Tells p) (hstep : p.Moves step q) :
    (p.note h step).Tells q where
  queues := hp.queues.step hstep
  handles := hp.handles_step hstep
  staffed := hp.staffed.step (fun t ht => (hp.handles.deliveries t ht).pos) hstep

/-- What a history tells is true after every run. -/
theorem Tells.watch? {steps : List (PoolStep α)} (hp : h.Tells p)
    (hrun : p.watch? h steps = some (q, h')) : h'.Tells q := by
  induction steps generalizing p h with
  | nil =>
    cases hrun
    exact hp
  | cons step steps ih =>
    obtain ⟨r, hstep, hrest⟩ := Option.bind_eq_some_iff.1 hrun
    exact ih (hp.step (Pool.moves_of_step? hstep)) hrest

end Steps

end History

end Telemetry.Agent
