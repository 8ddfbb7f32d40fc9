import Mathlib.Data.List.Nodup
import Mathlib.Data.List.Perm.Basic
import Telemetry.Agent.Pool

/-!
The steps of a pool. What a step does and when it can be done is said here once, case by case; what is
kept or moved by steps is shown from these cases. A cycle adds its jobs to a pool, a delivery takes one away,
and no other step changes them, as long as no attempt is the last one and nothing is dropped.
-/
namespace Telemetry.Agent.Pool
variable {α : Type}

/-- What a step does, by cases. -/
inductive Moves (p : Pool α) : PoolStep α → Pool α → Prop
  | offer {jobs : List α} (hpending : p.pending = []) (hopen : p.isClosed = false) :
      Moves p (.offer jobs) { p with pending := jobs }
  | accept {job : α} {rest : List α} (hpending : p.pending = job :: rest)
      (hroom : p.queue.length < p.capacity) (hopen : p.isClosed = false) (halive : p.isDeserted = false) :
      Moves p .accept { p with
        pending := rest, queue := p.queue ++ [(p.accepted, job)], accepted := p.accepted + 1 }
  | take {worker ticket : Nat} {job : α} {rest : List (Nat × α)}
      (hqueue : p.queue = (ticket, job) :: rest) (hworker : worker < p.workers)
      (hfree : worker ∉ p.occupied) :
      Moves p (.take worker) { p with
        queue := rest, deliveries := p.deliveries ++ [⟨worker, ticket, job, 1, .sending⟩] }
  /-- A send fails and is going to be repeated. -/
  | wait {ticket : Nat} {t : Delivery α} {rest : List (Delivery α)}
      (hpick : pick? ticket p.deliveries = some (t, rest)) (hphase : t.phase = .sending)
      (hsends : t.sends ≤ p.policy.maxRetries) (hdelay : (p.policy.delay? (t.sends - 1)).isSome) :
      Moves p (.finish ticket .transient) (p.proceed { t with phase := .waiting } rest)
  /-- A send fails and the wait for the next one is too long. -/
  | panic {ticket : Nat} {t : Delivery α} {rest : List (Delivery α)}
      (hpick : pick? ticket p.deliveries = some (t, rest)) (hphase : t.phase = .sending)
      (hsends : t.sends ≤ p.policy.maxRetries) (hdelay : p.policy.delay? (t.sends - 1) = none) :
      Moves p (.finish ticket .transient) (p.panic t rest)
  /-- A send is the last one. -/
  | finish {ticket : Nat} {outcome : Outcome} {t : Delivery α} {rest : List (Delivery α)}
      (hpick : pick? ticket p.deliveries = some (t, rest)) (hphase : t.phase = .sending)
      (hlast : outcome = .transient → p.policy.maxRetries < t.sends) :
      Moves p (.finish ticket outcome) (p.conclude t rest (outcome = .delivered))
  | resend {ticket : Nat} {t : Delivery α} {rest : List (Delivery α)}
      (hpick : pick? ticket p.deliveries = some (t, rest)) (hphase : t.phase = .waiting) :
      Moves p (.resend ticket) (p.proceed { t with phase := .sending, sends := t.sends + 1 } rest)
  | giveUp {ticket : Nat} {t : Delivery α} {rest : List (Delivery α)}
      (hpick : pick? ticket p.deliveries = some (t, rest)) (hphase : t.phase = .waiting)
      (hcancelled : p.isCancelled) : Moves p (.giveUp ticket) (p.conclude t rest false)
  | cancel : Moves p .cancel { p with isCancelled := true }
  | close (hdone : p.isCancelled ∨ p.isDeserted ∨ p.pending = []) :
      Moves p .close { p with pending := [], isClosed := true }

theorem isDeserted_iff {p : Pool α} : p.isDeserted ↔ ∀ worker < p.workers, worker ∈ p.panicked := by
  simp [isDeserted]

theorem isDeserted_of_subset {p q : Pool α} (hworkers : q.workers = p.workers)
    (hpanicked : p.panicked ⊆ q.panicked) (h : p.isDeserted) : q.isDeserted := by
  rw [isDeserted_iff] at h ⊢
  exact fun worker hworker => hpanicked (h worker (hworkers ▸ hworker))

section Picks
variable {ticket : Nat} {t u : Delivery α} {ts rest : List (Delivery α)}

theorem perm_of_pick? (h : pick? ticket ts = some (t, rest)) : ts.Perm (t :: rest) := by
  induction ts generalizing rest with
  | nil => cases h
  | cons u us ih =>
    rw [pick?] at h
    split at h
    · cases h
      exact .refl _
    · obtain ⟨⟨v, vs⟩, hpick, heq⟩ := Option.map_eq_some_iff.1 h
      cases heq
      exact ((ih hpick).cons u).trans (.swap _ u _)

theorem ticket_of_pick? (h : pick? ticket ts = some (t, rest)) : t.ticket = ticket := by
  induction ts generalizing rest with
  | nil => cases h
  | cons u us ih =>
    rw [pick?] at h
    split at h
    · next hu =>
      cases h
      exact hu
    · obtain ⟨⟨v, vs⟩, hpick, heq⟩ := Option.map_eq_some_iff.1 h
      cases heq
      exact ih hpick

theorem exists_pick? (h : ticket ∈ ts.map Delivery.ticket) :
    ∃ t rest, pick? ticket ts = some (t, rest) := by
  induction ts with
  | nil => cases h
  | cons u us ih =>
    by_cases hu : u.ticket = ticket
    · exact ⟨u, us, by rw [pick?, if_pos hu]⟩
    · have hmem : ticket ∈ us.map Delivery.ticket := by
        rcases List.mem_cons.1 h with heq | hmem
        · exact absurd heq.symm hu
        · exact hmem
      obtain ⟨t, rest, hpick⟩ := ih hmem
      exact ⟨t, u :: rest, by rw [pick?, if_neg hu, hpick]; rfl⟩

theorem pick?_of_mem (hnodup : (ts.map Delivery.ticket).Nodup) (ht : t ∈ ts) :
    ∃ rest, pick? t.ticket ts = some (t, rest) := by
  obtain ⟨u, rest, hpick⟩ := exists_pick? (List.mem_map_of_mem ht)
  have hu : u ∈ ts := (perm_of_pick? hpick).mem_iff.2 List.mem_cons_self
  obtain rfl := List.inj_on_of_nodup_map hnodup hu ht (ticket_of_pick? hpick)
  exact ⟨rest, hpick⟩

theorem pick?_eq_none (h : ticket ∉ ts.map Delivery.ticket) : pick? ticket ts = none := by
  cases hpick : pick? ticket ts with
  | none => rfl
  | some r =>
    refine absurd ?_ h
    rw [← ticket_of_pick? hpick]
    exact List.mem_map_of_mem ((perm_of_pick? hpick).mem_iff.2 List.mem_cons_self)

theorem pick?_append (hu : u.ticket = ticket) (h : ticket ∉ rest.map Delivery.ticket) :
    pick? ticket (rest ++ [u]) = some (u, rest) := by
  induction rest with
  | nil => rw [List.nil_append, pick?, if_pos hu]
  | cons v vs ih =>
    rw [List.map_cons, List.mem_cons, not_or] at h
    rw [List.cons_append, pick?, if_neg (Ne.symm h.1), ih h.2]
    rfl

end Picks

theorem moves_of_finish {p q : Pool α} {ticket : Nat} {outcome : Outcome}
    (h : p.step? (.finish ticket outcome) = some q) : p.Moves (.finish ticket outcome) q := by
  rw [step?] at h
  split at h
  · next t rest hpick =>
    split at h
    · next hphase =>
      split at h
      · next hretry =>
        obtain ⟨rfl, hsends⟩ := hretry
        split at h
        · next hdelay =>
          cases h
          exact .wait hpick hphase hsends hdelay
        · next hdelay =>
          cases h
          exact .panic hpick hphase hsends (by simpa using hdelay)
      · next hlast =>
        cases h
        exact .finish hpick hphase fun houtcome =>
          Nat.lt_of_not_le fun hsends => hlast ⟨houtcome, hsends⟩
    · cases h
  · cases h

theorem moves_of_step? {p q : Pool α} {step : PoolStep α} (h : p.step? step = some q) :
    p.Moves step q := by
  cases step with
  | offer jobs =>
    rw [step?] at h
    split at h
    · next hopen =>
      cases h
      exact .offer (List.isEmpty_iff.1 hopen.1) (by simpa using hopen.2)
    · cases h
  | accept =>
    rw [step?] at h
    split at h
    · next hpending =>
      split at h
      · next hroom =>
        cases h
        exact .accept hpending hroom.1 (by simpa using hroom.2.1) (by simpa using hroom.2.2)
      · cases h
    · cases h
  | take worker =>
    rw [step?] at h
    split at h
    · next hqueue =>
      split at h
      · next hfree =>
        cases h
        exact .take hqueue hfree.1 hfree.2
      · cases h
    · cases h
  | finish ticket outcome => exact moves_of_finish h
  | resend ticket =>
    rw [step?] at h
    split at h
    · next hpick =>
      split at h
      · next hphase =>
        cases h
        exact .resend hpick hphase
      · cases h
    · cases h
  | giveUp ticket =>
    rw [step?] at h
    split at h
    · next hpick =>
      split at h
      · next hphase =>
        cases h
        exact .giveUp hpick hphase.1 hphase.2
      · cases h
    · cases h
  | cancel =>
    cases h
    exact .cancel
  | close =>
    rw [step?] at h
    split at h
    · next hdone =>
      cases h
      exact .close (hdone.imp_right (Or.imp_right List.isEmpty_iff.1))
    · cases h

section Jobs
variable {p p' : Pool α} {ticket : Nat} {t u : Delivery α} {rest : List (Delivery α)}

/-- The jobs that are not over: those not accepted yet, those in the queue and those in delivery. -/
def jobs (p : Pool α) : List α := p.pending ++ p.queue.map Prod.snd ++ p.deliveries.map Delivery.job

/-- A step after which all jobs are still there. -/
def keeps (p : Pool α) : PoolStep α → Bool
  | .offer _ => false
  | .finish ticket outcome =>
    outcome = .transient && (pick? ticket p.deliveries).all fun r =>
      r.1.sends ≤ p.policy.maxRetries && (p.policy.delay? (r.1.sends - 1)).isSome
  | .giveUp _ => false
  | .close => p.pending.isEmpty
  | .accept => true
  | .take _ => true
  | .resend _ => true
  | .cancel => true

theorem perm_jobs_proceed (hpick : pick? ticket p.deliveries = some (t, rest)) (hjob : u.job = t.job) :
    (p.proceed u rest).jobs.Perm p.jobs := by
  have hdeliveries := (perm_of_pick? hpick).map Delivery.job
  have hlast : ((rest ++ [u]).map Delivery.job).Perm (p.deliveries.map Delivery.job) := by
    rw [List.map_append, List.map_singleton, hjob]
    exact (List.perm_append_singleton _ _).trans hdeliveries.symm
  exact hlast.append_left _

theorem jobs_of_offer {jobs : List α} (h : p.step? (.offer jobs) = some p') :
    p'.jobs = jobs ++ p.jobs := by
  cases moves_of_step? h with
  | offer hpending hopen => simp [Pool.jobs, hpending]

theorem perm_jobs_of_delivered (hpick : pick? ticket p.deliveries = some (t, rest))
    (h : p.step? (.finish ticket .delivered) = some p') : p.jobs.Perm (t.job :: p'.jobs) := by
  cases moves_of_step? h with
  | finish hpick' hphase hlast =>
    cases hpick.symm.trans hpick'
    exact (((perm_of_pick? hpick).map Delivery.job).append_left _).trans List.perm_middle

theorem perm_jobs_of_keeps {step : PoolStep α} (hkeeps : p.keeps step) (h : p.step? step = some p') :
    p'.jobs.Perm p.jobs := by
  cases moves_of_step? h with
  | offer hpending hopen => cases hkeeps
  | @accept job rest hpending hroom hopen halive =>
    have hmove : (rest ++ (p.queue ++ [(p.accepted, job)]).map Prod.snd).Perm
        (p.pending ++ p.queue.map Prod.snd) := by
      rw [hpending, List.map_append, ← List.append_assoc]
      exact List.perm_append_singleton _ _
    exact hmove.append_right _
  | @take worker ticket job rest hqueue hworker hfree =>
    have hmove : (rest.map Prod.snd ++
        (p.deliveries ++ [(⟨worker, ticket, job, 1, .sending⟩ : Delivery α)]).map Delivery.job).Perm
          (p.queue.map Prod.snd ++ p.deliveries.map Delivery.job) := by
      rw [hqueue, List.map_append, ← List.append_assoc]
      exact List.perm_append_singleton _ _
    rw [jobs, jobs, List.append_assoc, List.append_assoc]
    exact hmove.append_left _
  | wait hpick hphase hsends hdelay => exact perm_jobs_proceed hpick rfl
  | panic hpick hphase hsends hdelay => simp [keeps, hpick, hdelay] at hkeeps
  | @finish ticket outcome t rest hpick hphase hlast =>
    obtain ⟨houtcome, hsends⟩ := Bool.and_eq_true_iff.1 hkeeps
    have hretry : t.sends ≤ p.policy.maxRetries := by
      rw [hpick, Option.all_some, Bool.and_eq_true] at hsends
      exact of_decide_eq_true hsends.1
    exact absurd hretry (Nat.not_le_of_lt (hlast (of_decide_eq_true houtcome)))
  | resend hpick hphase => exact perm_jobs_proceed hpick rfl
  | giveUp hpick hphase hcancelled => cases hkeeps
  | cancel => exact .refl _
  | close hdone => simp [jobs, List.isEmpty_iff.1 hkeeps]

end Jobs

end Telemetry.Agent.Pool
