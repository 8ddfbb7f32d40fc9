import Mathlib.Algebra.BigOperators.Group.List.Basic
import Mathlib.Algebra.GroupWithZero.Nat
import Telemetry.Proofs.Agent.PoolRuns

/-!
Workers get on. Whatever sends end with, a free worker can take the next job, a send can end and a wait can
end; every such step brings the end nearer, and it is only when no accepted job or no worker is left that
there is none. After the end of a pool nothing happens any more.
-/
namespace Telemetry.Agent

namespace PoolStep
variable {α : Type}

def isWork : PoolStep α → Bool
  | .take _ => true
  | .finish _ _ => true
  | .resend _ => true
  | .giveUp _ => true
  | .offer _ => false
  | .accept => false
  | .cancel => false
  | .close => false

end PoolStep

namespace Delivery
variable {α : Type} {t : Delivery α}

/-- The most steps that a delivery can still take. -/
def workLeft (maxRetries : Nat) (t : Delivery α) : Nat :=
  2 * (maxRetries + 1 - t.sends) + t.underWay

theorem workLeft_sending (h : t.phase = .sending) (n : Nat) :
    t.workLeft n = 2 * (n + 1 - t.sends) + 1 := by rw [workLeft, underWay_sending h]

theorem workLeft_waiting (h : t.phase = .waiting) (n : Nat) :
    t.workLeft n = 2 * (n + 1 - t.sends) := by rw [workLeft, underWay_waiting h, Nat.add_zero]

end Delivery

namespace Pool
variable {α : Type} {p q : Pool α} {h h' : History α} {step : PoolStep α} {steps : List (PoolStep α)}

/-- The most steps that workers can still take with the jobs that are accepted. -/
def workLeft (p : Pool α) : Nat :=
  (2 * p.policy.maxRetries + 2) * p.queue.length +
    (p.deliveries.map (Delivery.workLeft p.policy.maxRetries)).sum

/-- Every step of a worker brings the end nearer. -/
theorem workLeft_lt (hp : h.Tells p) (hstep : p.Moves step q) (hwork : step.isWork) :
    q.workLeft < p.workLeft := by
  have hsum : ∀ {ticket t rest}, pick? ticket p.deliveries = some (t, rest) →
      (p.deliveries.map (Delivery.workLeft p.policy.maxRetries)).sum =
        t.workLeft p.policy.maxRetries + (rest.map (Delivery.workLeft p.policy.maxRetries)).sum :=
    fun hpick => ((perm_of_pick? hpick).map _).sum_eq
  cases hstep with
  | take hqueue hworker hfree =>
    simp only [workLeft, hqueue, List.map_append, List.map_singleton, List.sum_append, List.sum_singleton,
      List.length_cons, Delivery.workLeft_sending, Nat.mul_add]
    omega
  | wait hpick hphase hsends hdelay =>
    simp only [workLeft, proceed, hsum hpick, List.map_append, List.map_singleton, List.sum_append,
      List.sum_singleton, Delivery.workLeft_sending, Delivery.workLeft_waiting, hphase]
    omega
  | panic hpick hphase hsends hdelay =>
    simp only [workLeft, panic, conclude, hsum hpick, Delivery.workLeft_sending hphase]
    omega
  | finish hpick hphase hlast =>
    simp only [workLeft, conclude, hsum hpick, Delivery.workLeft_sending hphase]
    omega
  | resend hpick hphase =>
    have hle := (hp.handles.of_pick? hpick).1.le
    rw [Delivery.underWay_waiting hphase] at hle
    simp only [workLeft, proceed, hsum hpick, List.map_append, List.map_singleton, List.sum_append,
      List.sum_singleton, Delivery.workLeft_sending, Delivery.workLeft_waiting, hphase]
    omega
  | giveUp hpick hphase hcancelled =>
    have hle := (hp.handles.of_pick? hpick).1.le
    rw [Delivery.underWay_waiting hphase] at hle
    simp only [workLeft, conclude, hsum hpick, Delivery.workLeft_waiting hphase]
    omega
  | offer hpending hopen => cases hwork
  | accept hpending hroom hopen halive => cases hwork
  | cancel => cases hwork
  | close hdone => cases hwork

/-- Nothing stands in the way of a job, whatever becomes of the others. -/
structure Progresses (p : Pool α) : Prop where
  /-- A send can end in any way, and this changes neither the queue nor the other deliveries, nor does it
  keep a free worker. -/
  finish : ∀ t ∈ p.deliveries, t.phase = .sending → ∀ outcome, ∃ q,
    p.step? (.finish t.ticket outcome) = some q ∧ q.queue = p.queue ∧ q.occupied ⊆ p.occupied ∧
      ∀ u ∈ p.deliveries, u.ticket ≠ t.ticket → u ∈ q.deliveries
  /-- A wait can end. -/
  resend : ∀ t ∈ p.deliveries, t.phase = .waiting → ∃ q, p.step? (.resend t.ticket) = some q
  /-- A free worker can take the next job. -/
  take : p.queue ≠ [] → ∀ worker < p.workers, worker ∉ p.occupied → ∃ q, p.step? (.take worker) = some q
  /-- Workers are done after so many steps, and not before each accepted job is over or no worker is left. -/
  work : ∀ steps q, (∀ step ∈ steps, PoolStep.isWork step) → p.run? steps = some q →
    steps.length ≤ p.workLeft ∧ (q.deliveries = [] ∧ (q.queue = [] ∨ q.isDeserted) ∨
      ∃ step r, PoolStep.isWork step ∧ q.step? step = some r)

theorem exists_finish (hp : h.Tells p) {t : Delivery α} (ht : t ∈ p.deliveries)
    (hphase : t.phase = .sending) (outcome : Outcome) : ∃ q,
      p.step? (.finish t.ticket outcome) = some q ∧ q.queue = p.queue ∧ q.occupied ⊆ p.occupied ∧
        ∀ u ∈ p.deliveries, u.ticket ≠ t.ticket → u ∈ q.deliveries := by
  obtain ⟨rest, hpick⟩ := pick?_of_mem (List.nodup_append.1 hp.nodup_handled).1 ht
  have hrest : ∀ u ∈ p.deliveries, u.ticket ≠ t.ticket → u ∈ rest := by
    intro u hu hne
    rcases List.mem_cons.1 ((perm_of_pick? hpick).mem_iff.1 hu) with rfl | hu
    · exact absurd rfl hne
    · exact hu
  simp only [step?, hpick, hphase, if_true]
  split
  · split
    · exact ⟨_, rfl, rfl, (occupied_proceed_perm hpick (by rfl)).subset,
        fun u hu hne => List.mem_append_left _ (hrest u hu hne)⟩
    · exact ⟨_, rfl, rfl, (occupied_panic_perm hpick).subset, hrest⟩
  · exact ⟨_, rfl, rfl, (occupied_conclude_subperm hpick _).subset, hrest⟩

theorem exists_resend (hp : h.Tells p) {t : Delivery α} (ht : t ∈ p.deliveries)
    (hphase : t.phase = .waiting) : ∃ q, p.step? (.resend t.ticket) = some q := by
  obtain ⟨rest, hpick⟩ := pick?_of_mem (List.nodup_append.1 hp.nodup_handled).1 ht
  exact ⟨p.proceed { t with phase := .sending, sends := t.sends + 1 } rest, by
    simp only [step?, hpick, hphase, if_true]⟩

theorem exists_take {worker : Nat} (hqueue : p.queue ≠ []) (hworker : worker < p.workers)
    (hfree : worker ∉ p.occupied) : ∃ q, p.step? (.take worker) = some q := by
  rw [step?]
  split
  · exact ⟨_, if_pos ⟨hworker, hfree⟩⟩
  · next hnil => exact absurd hnil hqueue

theorem step?_close (hdone : p.isCancelled ∨ p.isDeserted ∨ p.pending = []) :
    p.step? .close = some { p with pending := [], isClosed := true } :=
  if_pos (hdone.imp_right (Or.imp_right List.isEmpty_iff.2))

/-- As long as an accepted job is not over and a worker is left there is something to do. -/
theorem exists_work (hp : h.Tells p) (hleft : ¬(p.deliveries = [] ∧ (p.queue = [] ∨ p.isDeserted))) :
    ∃ step q, PoolStep.isWork step ∧ p.step? step = some q := by
  cases hdeliveries : p.deliveries with
  | nil =>
    rw [not_and_or, not_or, isDeserted_iff] at hleft
    obtain ⟨hqueue, halive⟩ := hleft.resolve_left (not_not.2 hdeliveries)
    push Not at halive
    obtain ⟨worker, hworker, hfree⟩ := halive
    obtain ⟨q, hq⟩ := exists_take hqueue hworker (by simpa [occupied, hdeliveries] using hfree)
    exact ⟨.take worker, q, rfl, hq⟩
  | cons t ts =>
    have ht : t ∈ p.deliveries := hdeliveries ▸ List.mem_cons_self
    cases hphase : t.phase with
    | sending =>
      obtain ⟨q, hq, -, -, -⟩ := exists_finish hp ht hphase .delivered
      exact ⟨.finish t.ticket .delivered, q, rfl, hq⟩
    | waiting =>
      obtain ⟨q, hq⟩ := exists_resend hp ht hphase
      exact ⟨.resend t.ticket, q, rfl, hq⟩

theorem workers_of_moves (hstep : p.Moves step q) : q.workers = p.workers := by
  cases hstep <;> rfl

theorem policy_of_moves (hstep : p.Moves step q) : q.policy = p.policy := by
  cases hstep <;> rfl

theorem settings_of_watch? (hrun : p.watch? h steps = some (q, h')) :
    q.workers = p.workers ∧ q.policy = p.policy := by
  induction steps generalizing p h with
  | nil =>
    cases hrun
    exact ⟨rfl, rfl⟩
  | cons step steps ih =>
    obtain ⟨r, hstep, hrest⟩ := Option.bind_eq_some_iff.1 hrun
    have hmoves := moves_of_step? hstep
    obtain ⟨hworkers, hpolicy⟩ := ih hrest
    exact ⟨hworkers.trans (workers_of_moves hmoves), hpolicy.trans (policy_of_moves hmoves)⟩

theorem work_of_run? (hp : h.Tells p) (hwork : ∀ step ∈ steps, PoolStep.isWork step)
    (hrun : p.run? steps = some q) :
    steps.length + q.workLeft ≤ p.workLeft ∧ (q.deliveries = [] ∧ (q.queue = [] ∨ q.isDeserted) ∨
      ∃ step r, PoolStep.isWork step ∧ q.step? step = some r) := by
  induction steps generalizing p h with
  | nil =>
    cases hrun
    exact ⟨by simp, or_iff_not_imp_left.2 (exists_work hp)⟩
  | cons step steps ih =>
    obtain ⟨r, hstep, hrest⟩ := Option.bind_eq_some_iff.1 hrun
    obtain ⟨hfirst, hothers⟩ := List.forall_mem_cons.1 hwork
    have hmoves := moves_of_step? hstep
    obtain ⟨hlength, hleft⟩ := ih (hp.step hmoves) hothers hrest
    have hlt := workLeft_lt hp hmoves hfirst
    rw [List.length_cons]
    exact ⟨by omega, hleft⟩

theorem progresses (hp : h.Tells p) : p.Progresses where
  finish _ ht hphase outcome := exists_finish hp ht hphase outcome
  resend _ ht hphase := exists_resend hp ht hphase
  take hqueue _ := exists_take hqueue
  work _ _ hwork hrun :=
    have ⟨hlength, hleft⟩ := work_of_run? hp hwork hrun
    ⟨Nat.le_of_add_right_le hlength, hleft⟩

/-- In a pool that is over nothing is seen to happen. -/
theorem note_of_isOver (hp : h.Tells p) (hover : p.isOver) (hstep : p.Moves step q) :
    q.isOver ∧ p.note h step = h := by
  have hempty := hover
  simp only [isOver, Bool.and_eq_true, Bool.or_eq_true, List.isEmpty_iff] at hempty
  obtain ⟨⟨hclosed, hdeliveries⟩, hleft⟩ := hempty
  have hpick : ∀ {ticket r}, pick? ticket p.deliveries ≠ some r := by
    intro ticket r hr
    rw [hdeliveries] at hr
    cases hr
  cases hstep with
  | offer hpending hopen => cases hclosed.symm.trans hopen
  | accept hpending hroom hopen halive => cases hclosed.symm.trans hopen
  | @take worker ticket job items hqueue hworker hfree =>
    rcases hleft with hnil | hdeserted
    · cases hnil.symm.trans hqueue
    · exact absurd (List.mem_append_right _ (isDeserted_iff.1 hdeserted worker hworker)) hfree
  | wait h' => exact absurd h' hpick
  | panic h' => exact absurd h' hpick
  | finish h' => exact absurd h' hpick
  | resend h' => exact absurd h' hpick
  | giveUp h' => exact absurd h' hpick
  | cancel => exact ⟨hover, rfl⟩
  | close hdone =>
    refine ⟨by simpa [isOver, hdeliveries, isDeserted] using hleft, ?_⟩
    rw [note, hp.queues.closed hclosed, List.append_nil]

theorem watch?_of_isOver (hp : h.Tells p) (hover : p.isOver)
    (hrun : p.watch? h steps = some (q, h')) : q.isOver ∧ h' = h := by
  induction steps generalizing p with
  | nil =>
    cases hrun
    exact ⟨hover, rfl⟩
  | cons step steps ih =>
    obtain ⟨r, hstep, hrest⟩ := Option.bind_eq_some_iff.1 hrun
    have hmoves := moves_of_step? hstep
    obtain ⟨hr, hnote⟩ := note_of_isOver hp hover hmoves
    have htells := hp.step hmoves
    rw [hnote] at hrest htells
    exact ih htells hr hrest

end Pool
end Telemetry.Agent
