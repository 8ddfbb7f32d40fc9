import Telemetry.Proofs.Agent.Shipment

/-!
What deliveries add to the totals of counters. A job reports each counter with its whole value, and a
server that takes the job adds this value to its own.
-/
namespace Telemetry

/-- What a report adds to the total of a counter. -/
def Report.added (name : String) (r : Report) : Int :=
  if (⟨r.kind, r.id⟩ : Key) = ⟨.counter, name⟩ then r.delta.elim 0 Int64.toInt else 0

theorem Report.added_ofMetric (name : String) (m : Metric) :
    (ofMetric m).added name = increment name m.key (.ofValue m.value) := by
  obtain ⟨_, value⟩ := m
  cases value <;> rfl

namespace Ledger

theorem increments_eq_sum (name : String) (ms : List Metric) :
    increments name ms = (ms.map fun m => (Report.ofMetric m).added name).sum := by
  induction ms with
  | nil => rfl
  | cons m ms ih =>
    rw [List.map_cons, List.sum_cons, Report.added_ofMetric, ← ih]
    rfl

end Ledger

namespace Agent

def Job.added (name : String) (job : Job) : Int := (job.reports.map (Report.added name)).sum

theorem Job.Carries.added_eq {job : Job} {ms : List Metric} (h : job.Carries ms) (name : String) :
    job.added name = increments name ms := by
  rw [Ledger.increments_eq_sum]
  cases h with
  | one m => rfl
  | batch hne => rw [added, reports, List.map_map]; rfl

theorem Job.Carries.mapM_toMetric {job : Job} {ms : List Metric} (h : job.Carries ms)
    (hms : ∀ m ∈ ms, m.WellFormed) : job.reports.mapM Report.toMetric = .ok ms := by
  cases h with
  | one m => exact Report.mapM_toMetric_ofMetric hms
  | batch hne => exact Report.mapM_toMetric_ofMetric hms

theorem Job.sum_added_ofSnapshot (mode : SendMode) (name : String) (ms : List Metric) :
    ((Job.ofSnapshot mode ms).map (Job.added name)).sum = increments name ms := by
  rw [Ledger.increments_eq_sum]
  cases mode with
  | single =>
    rw [ofSnapshot, List.map_map, List.map_map]
    have hadded : Job.added name ∘ Job.one ∘ Report.ofMetric =
        fun m => (Report.ofMetric m).added name := by
      funext m
      exact Int.add_zero _
    rw [← hadded]
    rfl
  | batch =>
    by_cases hne : ms = []
    · subst hne
      rfl
    · rw [ofSnapshot_batch hne, List.map_singleton, List.sum_singleton, added, reports, List.map_map]
      rfl

theorem Job.exists_carries_of_mem {mode : SendMode} {ms : List Metric} {job : Job}
    (h : job ∈ ofSnapshot mode ms) : ∃ ms' : List Metric, job.Carries ms' ∧ ms' ⊆ ms := by
  cases mode with
  | single =>
    rw [ofSnapshot, List.map_map] at h
    obtain ⟨m, hm, rfl⟩ := List.mem_map.1 h
    exact ⟨[m], .one m, List.cons_subset.2 ⟨hm, List.nil_subset _⟩⟩
  | batch =>
    by_cases hne : ms = []
    · subst hne
      cases h
    · rw [ofSnapshot_batch hne] at h
      obtain rfl := List.mem_singleton.1 h
      exact ⟨ms, .batch hne, List.Subset.refl _⟩

namespace Shipment
variable {d : Shipment} {s : Server} {l : Ledger} {ms : List Metric}

def IsTaken (s : Server) (d : Shipment) : Prop :=
  ∃ ms, d.job.reports.mapM Report.toMetric = .ok ms ∧ s.store.accepted ms = ms

instance (s : Server) (d : Shipment) : Decidable (d.IsTaken s) :=
  match h : d.job.reports.mapM Report.toMetric with
  | .error e => isFalse fun ⟨ms, hms, _⟩ => by simp [h] at hms
  | .ok ms =>
    if hms : s.store.accepted ms = ms then isTrue ⟨ms, h, hms⟩
    else isFalse fun ⟨ms', hms', htaken⟩ => hms (Except.ok.inj (h.symm.trans hms') ▸ htaken)

/-- Deliveries one after another of which the server takes everything. -/
def AllTaken : List Shipment → Server → Prop
  | [], _ => True
  | d :: ds, s => d.IsTaken s ∧ AllTaken ds (d.deliver s)

instance AllTaken.decidable : (ds : List Shipment) → (s : Server) → Decidable (AllTaken ds s)
  | [], _ => .isTrue trivial
  | d :: ds, s =>
    have := AllTaken.decidable ds (d.deliver s)
    inferInstanceAs (Decidable (d.IsTaken s ∧ AllTaken ds (d.deliver s)))

/-- A delivery that is taken adds what its job adds, and the server is set up as before. -/
theorem exists_ledger_deliver (hl : l.Valid) (hs : s.store.Holds l) (hjob : d.job.Carries ms)
    (hms : ∀ m ∈ ms, m.WellFormed) (hreach : d.Reaches s) (htaken : d.IsTaken s) :
    ∃ call, d.deliver s = s.perform call ∧ ∃ l' : Ledger, l'.Valid ∧ (s.perform call).store.Holds l' ∧
      ∀ name, l'.total name = l.total name + d.job.added name := by
  obtain ⟨call, hcall, hdeliver⟩ := exists_deliver_eq_perform hjob hms hreach
  obtain ⟨ms', hreports, htakes⟩ := htaken
  obtain rfl : ms = ms' := Except.ok.inj ((hjob.mapM_toMetric hms).symm.trans hreports)
  have hall : l.accepted ms = ms := hs.accepted_eq hl hms htakes
  refine ⟨call, hdeliver, (Ledger.applyAll ms l).2, (hl.applyAll ms).2, ?_, fun name => ?_⟩
  · have hstore := hcall.store s.store hl hall
    rw [hs.refill_eq] at hstore
    rw [Server.perform_store, hstore]
    exact hs.holds_refill _
  · rw [Ledger.total_applyAll, hall, hjob.added_eq]

theorem total_deliverAll {ds : List Shipment} (hl : l.Valid) (hs : s.store.Holds l)
    (hjobs : ∀ d ∈ ds, ∃ ms : List Metric, d.job.Carries ms ∧ ∀ m ∈ ms, m.WellFormed)
    (hreach : ∀ d ∈ ds, d.Reaches s) (htaken : AllTaken ds s) (name : String) :
    (deliverAll ds s).store.total name = l.total name + (ds.map fun d => d.job.added name).sum := by
  induction ds generalizing s l with
  | nil => exact (hs.total_eq name).trans (Int.add_zero _).symm
  | cons d ds ih =>
    obtain ⟨hfirst, hrest⟩ := htaken
    obtain ⟨⟨ms, hjob, hms⟩, hjobs⟩ := List.forall_mem_cons.1 hjobs
    obtain ⟨hd, hds⟩ := List.forall_mem_cons.1 hreach
    obtain ⟨call, hdeliver, l', hl', hs', htotal⟩ := exists_ledger_deliver hl hs hjob hms hd hfirst
    have hreach' : ∀ d ∈ ds, d.Reaches (s.perform call) :=
      fun d hd => (hds d hd).congr (by simp) (by simp) (by simp)
    have hnext := ih hl' hs' hjobs hreach' (hdeliver ▸ hrest)
    rw [htotal] at hnext
    rw [List.map_cons, List.sum_cons, ← Int.add_assoc, ← hnext, deliverAll, List.foldl_cons, hdeliver]
    rfl

end Shipment

end Agent
end Telemetry
