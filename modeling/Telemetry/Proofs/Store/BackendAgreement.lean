import Mathlib.Data.List.Forall2
import Telemetry.Proofs.Store.Operation

/-!
The three kinds of store agree. Those that start empty stay alike under every run in which no item of a
batch is rejected: after each operation they give the same answer, or refuse for the same reason, and
they hold the same keys with the same values, readings being compared as numbers.
-/
namespace Telemetry

namespace Answer

/-- The same metrics, readings compared as numbers. -/
inductive Same : Answer → Answer → Prop
  | done : Same done done
  | metric {a b : Metric} (h : a.numEq b) : Same (metric a) (metric b)
  | metrics {as bs : List Metric} (h : List.Forall₂ (fun a b => a.numEq b) as bs) :
      Same (metrics as) (metrics bs)

/-- The same metrics, or the same refusal for a reason that lies in the metrics. -/
inductive SameReply : Except StoreError Answer → Except StoreError Answer → Prop
  | ok {a b : Answer} (h : Same a b) : SameReply (.ok a) (.ok b)
  | notFound (key : Key) : SameReply (.error (.notFound key)) (.error (.notFound key))
  | alreadyExists (key : Key) : SameReply (.error (.alreadyExists key)) (.error (.alreadyExists key))
  | metricError (e : MetricError) : SameReply (.error (.metric e)) (.error (.metric e))

theorem forall₂_of_map_eq {R : Metric → Metric → Prop}
    (hR : ∀ a b : Metric, a.WellFormed → b.WellFormed → a.dropZeroSign = b.dropZeroSign → R a b)
    {as bs : List Metric} (ha : ∀ m ∈ as, m.WellFormed) (hb : ∀ m ∈ bs, m.WellFormed)
    (h : as.map Metric.dropZeroSign = bs.map Metric.dropZeroSign) : List.Forall₂ R as bs := by
  induction as generalizing bs with
  | nil =>
    obtain rfl : bs = [] := by simpa using h.symm
    exact .nil
  | cons a as ih =>
    cases bs with
    | nil => simp at h
    | cons b bs =>
      have ha := List.forall_mem_cons.1 ha
      have hb := List.forall_mem_cons.1 hb
      obtain ⟨hhead, htail⟩ := List.cons.inj h
      exact .cons (hR a b ha.1 hb.1 hhead) (ih ha.2 hb.2 htail)

theorem same_of_dropZeroSign_eq {a b : Answer} (ha : a.WellFormed) (hb : b.WellFormed)
    (h : a.dropZeroSign = b.dropZeroSign) : Same a b := by
  cases a with
  | done => cases b <;> simp [dropZeroSign] at h; exact .done
  | metric m =>
    cases b <;> simp [dropZeroSign] at h
    exact .metric (Metric.numEq_of_dropZeroSign_eq ha hb h)
  | metrics ms =>
    cases b <;> simp [dropZeroSign] at h
    exact .metrics (forall₂_of_map_eq (fun _ _ => Metric.numEq_of_dropZeroSign_eq) ha hb h)

theorem sameReply_of_sound {r r' : Except StoreError Answer} (h : Sound r) (h' : Sound r')
    (heq : r.map dropZeroSign = r'.map dropZeroSign) : SameReply r r' := by
  cases h <;> cases h' <;> simp [Except.map] at heq
  case ok.ok ha b hb => exact .ok (same_of_dropZeroSign_eq ha hb heq)
  case notFound.notFound => subst heq; exact .notFound _
  case alreadyExists.alreadyExists => subst heq; exact .alreadyExists _
  case metricError.metricError => subst heq; exact .metricError _

end Answer

namespace Row

def exact (m : Metric) : Row := ⟨m.kind.text, m.name, m.value.counter?, m.value.gauge?⟩

/-- The same row, readings compared as numbers. -/
def numEq (a b : Row) : Prop :=
  a.type = b.type ∧ a.name = b.name ∧ a.int = b.int ∧ Option.Rel (fun x y => x.numEq y) a.float b.float

theorem ofMetric_eq_exact {m : Metric} (h : m.WellFormed) : ofMetric m = exact m.dropZeroSign := by
  obtain ⟨name, v⟩ := m
  cases v with
  | counter n => rfl
  | gauge x =>
    have hx : stored? x = some x.dropZeroSign := stored?_of_isFinite h.finite
    simp [ofMetric, exact, Value.gauge?, hx, Metric.dropZeroSign, Value.dropZeroSign,
      Value.counter?, Metric.kind, Value.kind]

theorem exact_numEq_exact {a b : Metric} (ha : a.WellFormed) (hb : b.WellFormed)
    (h : a.dropZeroSign = b.dropZeroSign) : (exact a).numEq (exact b) := by
  have hkind : a.kind = b.kind := by
    rw [← Metric.kind_dropZeroSign a, h, Metric.kind_dropZeroSign]
  have hname : a.dropZeroSign.name = b.dropZeroSign.name := congrArg Metric.name h
  have hvalue : a.value.dropZeroSign = b.value.dropZeroSign := congrArg Metric.value h
  have hnum := Value.numEq_of_dropZeroSign_eq ha.finite hb.finite hvalue
  refine ⟨congrArg Kind.text hkind, hname, ?_⟩
  obtain ⟨name, v⟩ := a
  obtain ⟨name', v'⟩ := b
  cases v with
  | counter n =>
    cases v' with
    | counter n' => exact ⟨congrArg some (by simpa [Value.numEq] using hnum), .none⟩
    | gauge y => simp [Value.dropZeroSign] at hvalue
  | gauge x =>
    cases v' with
    | counter n' => simp [Value.dropZeroSign] at hvalue
    | gauge y => exact ⟨rfl, .some hnum⟩

end Row

namespace Store

def rows : Store → Table := view (List.map Row.exact) id

/-- The same keys with the same values, readings compared as numbers. -/
def SameContent (s s' : Store) : Prop := List.Forall₂ Row.numEq s.rows s'.rows

section
variable {l : Ledger} {s s' : Store}

theorem Holds.rows_eq (hs : Holds l s) (h : l.Valid) :
    ∃ ms : List Metric, s.rows = ms.map Row.exact ∧ (∀ m ∈ ms, m.WellFormed) ∧
      ms.map Metric.dropZeroSign = l.map Metric.dropZeroSign := by
  cases hs with
  | memory => exact ⟨l, rfl, h.wellFormed, rfl⟩
  | file path => exact ⟨l, rfl, h.wellFormed, rfl⟩
  | table =>
    refine ⟨l.map Metric.dropZeroSign, ?_, ?_, by simp [Function.comp_def]⟩
    · simp only [rows, view, id, Ledger.image, List.map_map]
      exact List.map_congr_left fun m hm => Row.ofMetric_eq_exact (h.wellFormed m hm)
    · intro m hm
      obtain ⟨a, ha, rfl⟩ := List.mem_map.1 hm
      exact (h.wellFormed a ha).dropZeroSign

theorem Holds.sameContent (hs : Holds l s) (hs' : Holds l s') (h : l.Valid) : s.SameContent s' := by
  obtain ⟨ms, hrows, hms, hdrop⟩ := hs.rows_eq h
  obtain ⟨ms', hrows', hms', hdrop'⟩ := hs'.rows_eq h
  rw [SameContent, hrows, hrows', List.forall₂_map_left_iff, List.forall₂_map_right_iff]
  exact Answer.forall₂_of_map_eq (fun _ _ => Row.exact_numEq_exact) hms hms'
    (hdrop.trans hdrop'.symm)

end
end Store

/-- The same answer from stores that are alike afterwards. -/
def Agree (r r' : Except StoreError Answer × Store) : Prop :=
  Answer.SameReply r.1 r'.1 ∧ r.2.SameContent r'.2

theorem trace_agree {l : Ledger} {s s' : Store} {ops : List Operation} (hs : s.Holds l)
    (hs' : s'.Holds l) (h : l.Valid) (hops : NoneRejected ops l) :
    List.Forall₂ Agree (Store.backend.trace ops s) (Store.backend.trace ops s') := by
  induction ops generalizing l s s' with
  | nil => exact .nil
  | cons op ops ih =>
    obtain ⟨hop, hrest⟩ := hops
    obtain ⟨hnext, hsound, hreply⟩ := hs.perform h hop
    obtain ⟨hnext', hsound', hreply'⟩ := hs'.perform h hop
    have hvalid := (h.perform op).2
    exact .cons ⟨Answer.sameReply_of_sound hsound hsound' (hreply.trans hreply'.symm),
      hnext.sameContent hnext' hvalid⟩ (ih hnext hnext' hvalid hrest)

/-- Two stores that start empty, of whatever kinds, agree after every operation of a run. -/
theorem empty_stores_agree {s s' : Store} (hs : s.IsEmpty) (hs' : s'.IsEmpty)
    {ops : List Operation} (hops : NoneRejected ops []) :
    List.Forall₂ Agree (Store.backend.trace ops s) (Store.backend.trace ops s') :=
  trace_agree hs.holds hs'.holds .nil hops

/-- A run with a negative zero, a refused update, a key that is not there and a batch on one key. -/
def mixedRun : List Operation :=
  [.add ⟨"Alloc", .gauge (.zero true)⟩ (by decide), .update ⟨.gauge, "Alloc"⟩ (.text "none"),
    .update ⟨.gauge, "Alloc"⟩ (.text "-0"), .retrieve ⟨.counter, "Alloc"⟩,
    .updateBatch [⟨"polls", .counter 5⟩, ⟨"Alloc", .gauge (.zero true)⟩, ⟨"polls", .counter (-7)⟩]
      (by decide),
    .update ⟨.counter, "polls"⟩ (.int 9223372036854775807), .all]

theorem empty_stores_agree_mixedRun : NoneRejected mixedRun [] ∧
    List.Forall₂ Agree (Store.backend.trace mixedRun (.file ["dump"] []))
      (Store.backend.trace mixedRun (.table [])) := by
  have hops : NoneRejected mixedRun [] := by decide +kernel
  exact ⟨hops, empty_stores_agree (.file ["dump"]) .table hops⟩

end Telemetry
