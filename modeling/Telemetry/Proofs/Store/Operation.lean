import Telemetry.Proofs.Store.TableImage
import Telemetry.Store.Basic

/-!
The operations on a store as data, so that runs of them can be spoken of. On a ledger every operation
gives well-formed metrics or refuses for a reason that lies in the metrics; a store holds a ledger, as
it is or as the rows of a table, and an operation on the store is the operation on what it holds.
-/
namespace Telemetry

/-- An operation on a store; its metrics are such as can be built. -/
inductive Operation where
  | add (m : Metric) (hm : m.WellFormed)
  | update (key : Key) (i : Input)
  | retrieve (key : Key)
  | all
  | updateBatch (items : List Metric) (hitems : ∀ m ∈ items, m.WellFormed)

inductive Answer where
  | done
  | metric (m : Metric)
  | metrics (ms : List Metric)

namespace Backend
variable {σ : Type}

def perform (b : Backend σ) : Operation → σ → Except StoreError Answer × σ
  | .add m _, s => Prod.map (Except.map fun _ => .done) id (b.add m s)
  | .update key i, s => Prod.map (Except.map .metric) id (b.update key i s)
  | .retrieve key, s => ((b.retrieve key s).map .metric, s)
  | .all, s => ((b.all s).map .metrics, s)
  | .updateBatch items _, s => Prod.map (Except.map .metrics) id (b.updateBatch items s)

/-- The answers to operations one after another, each with the state it leaves behind. -/
def trace (b : Backend σ) : List Operation → σ → List (Except StoreError Answer × σ)
  | [], _ => []
  | op :: ops, s => b.perform op s :: b.trace ops (b.perform op s).2

/-- One backend works inside the states of another. -/
structure Embeds {σ τ : Type} (f : σ → τ) (b : Backend σ) (c : Backend τ) : Prop where
  add : ∀ m s, c.add m (f s) = Prod.map id f (b.add m s)
  update : ∀ key i s, c.update key i (f s) = Prod.map id f (b.update key i s)
  retrieve : ∀ key s, c.retrieve key (f s) = b.retrieve key s
  all : ∀ s, c.all (f s) = b.all s
  updateBatch : ∀ items s, c.updateBatch items (f s) = Prod.map id f (b.updateBatch items s)

theorem Embeds.perform {τ : Type} {f : σ → τ} {b : Backend σ} {c : Backend τ} (h : Embeds f b c)
    (op : Operation) (s : σ) : c.perform op (f s) = Prod.map id f (b.perform op s) := by
  cases op with
  | add m hm => exact congrArg (Prod.map (Except.map fun _ => Answer.done) id) (h.add m s)
  | update key i => exact congrArg (Prod.map (Except.map Answer.metric) id) (h.update key i s)
  | retrieve key => simp [Backend.perform, h.retrieve]
  | all => simp [Backend.perform, h.all]
  | updateBatch items hitems =>
    exact congrArg (Prod.map (Except.map Answer.metrics) id) (h.updateBatch items s)

end Backend

def Operation.IsAccepted : Operation → Ledger → Prop
  | .updateBatch items _, l => l.accepted items = items
  | _, _ => True

def NoneRejected : List Operation → Ledger → Prop
  | [], _ => True
  | op :: ops, l => op.IsAccepted l ∧ NoneRejected ops (Ledger.backend.perform op l).2

instance : (op : Operation) → (l : Ledger) → Decidable (op.IsAccepted l)
  | .updateBatch items _, l => inferInstanceAs (Decidable (l.accepted items = items))
  | .add _ _, _ => .isTrue trivial
  | .update _ _, _ => .isTrue trivial
  | .retrieve _, _ => .isTrue trivial
  | .all, _ => .isTrue trivial

instance NoneRejected.decidable : (ops : List Operation) → (l : Ledger) →
    Decidable (NoneRejected ops l)
  | [], _ => .isTrue trivial
  | op :: ops, l =>
    have := NoneRejected.decidable ops (Ledger.backend.perform op l).2
    inferInstanceAs (Decidable (op.IsAccepted l ∧ NoneRejected ops (Ledger.backend.perform op l).2))

namespace Answer

def WellFormed : Answer → Prop
  | done => True
  | metric m => m.WellFormed
  | metrics ms => ∀ m ∈ ms, m.WellFormed

def dropZeroSign : Answer → Answer
  | done => done
  | metric m => metric m.dropZeroSign
  | metrics ms => metrics (ms.map Metric.dropZeroSign)

/-- Well-formed metrics, or a refusal for a reason that lies in the metrics. -/
inductive Sound : Except StoreError Answer → Prop
  | ok {a : Answer} (h : a.WellFormed) : Sound (.ok a)
  | notFound (key : Key) : Sound (.error (.notFound key))
  | alreadyExists (key : Key) : Sound (.error (.alreadyExists key))
  | metricError (e : MetricError) : Sound (.error (.metric e))

theorem WellFormed.dropZeroSign {a : Answer} (h : a.WellFormed) : a.dropZeroSign.WellFormed := by
  cases a with
  | done => trivial
  | metric m => exact Metric.WellFormed.dropZeroSign h
  | metrics ms =>
    intro m hm
    obtain ⟨a, ha, rfl⟩ := List.mem_map.1 hm
    exact (h a ha).dropZeroSign

theorem Sound.dropZeroSign {r : Except StoreError Answer} (h : Sound r) :
    Sound (r.map Answer.dropZeroSign) := by
  cases h with
  | ok h => exact .ok h.dropZeroSign
  | notFound key => exact .notFound key
  | alreadyExists key => exact .alreadyExists key
  | metricError e => exact .metricError e

@[simp] theorem dropZeroSign_dropZeroSign (a : Answer) :
    a.dropZeroSign.dropZeroSign = a.dropZeroSign := by
  cases a <;> simp [dropZeroSign]

theorem map_dropZeroSign_map_dropZeroSign (r : Except StoreError Answer) :
    (r.map dropZeroSign).map dropZeroSign = r.map dropZeroSign := by
  cases r with
  | error e => rfl
  | ok a => exact congrArg Except.ok a.dropZeroSign_dropZeroSign

end Answer

namespace Ledger

/-- An operation leaves a valid ledger behind and refuses only for reasons that lie in the metrics. -/
theorem Valid.perform {l : Ledger} (h : l.Valid) (op : Operation) :
    Answer.Sound (backend.perform op l).1 ∧ (backend.perform op l).2.Valid := by
  cases op with
  | add m hm =>
    refine ⟨?_, h.add hm⟩
    cases hf : l.find? m.key with
    | some a => simpa [Backend.perform, backend, add_of_some hf] using .alreadyExists m.key
    | none => simpa [Backend.perform, backend, add_of_none hf] using .ok trivial
  | update key i =>
    refine ⟨?_, h.update key i⟩
    cases hf : l.find? key with
    | none => simpa [Backend.perform, backend, update_of_none hf] using .notFound key
    | some m =>
      cases hu : m.update i with
      | error e => simpa [Backend.perform, backend, update_of_error hf hu] using .metricError e
      | ok m' =>
        have hm' : (Answer.metric m').WellFormed := (h.of_find? hf).update hu
        simpa [Backend.perform, backend, update_of_ok hf hu, Except.map] using .ok hm'
  | retrieve key =>
    refine ⟨?_, h⟩
    cases hf : l.find? key with
    | none => simpa [Backend.perform, backend, retrieve, hf] using .notFound key
    | some m =>
      have hm : (Answer.metric m).WellFormed := h.of_find? hf
      simpa [Backend.perform, backend, retrieve, hf, Except.map] using .ok hm
  | all => exact ⟨.ok h.wellFormed, h⟩
  | updateBatch items hitems =>
    obtain ⟨hms, hl⟩ := h.applyAll items
    exact ⟨.ok hms, hl⟩

/-- On the rows of a ledger an operation does what it does on the ledger. -/
theorem perform_image {l : Ledger} (h : l.Valid) {op : Operation} (hop : op.IsAccepted l) :
    Table.backend.perform op l.image =
      Prod.map (Except.map Answer.dropZeroSign) image (backend.perform op l) := by
  have hmap : ∀ {α : Type} (f : α → Answer) (g : α → α) (r : Except StoreError α),
      (∀ a, f (g a) = (f a).dropZeroSign) →
      (r.map g).map f = (r.map f).map Answer.dropZeroSign := by
    intro α f g r hfg
    cases r with
    | error e => rfl
    | ok a => exact congrArg Except.ok (hfg a)
  cases op with
  | add m hm =>
    simp only [Backend.perform, Table.backend, backend, insert_image]
    cases hf : l.find? m.key with
    | some a => simp [add_of_some hf, Except.map]
    | none => simp [add_of_none hf, Except.map, Answer.dropZeroSign]
  | update key i =>
    simp only [Backend.perform, Table.backend, backend, update_image h, Prod.map]
    rw [hmap Answer.metric Metric.dropZeroSign _ fun _ => rfl]
    rfl
  | retrieve key =>
    simp only [Backend.perform, Table.backend, backend, retrieve_image h, Prod.map]
    rw [hmap Answer.metric Metric.dropZeroSign _ fun _ => rfl]
  | all =>
    simp only [Backend.perform, Table.backend, backend, all_image h.wellFormed, Prod.map]
    rfl
  | updateBatch items hitems =>
    simp only [Backend.perform, Table.backend, backend, updateBatch_image_ok h hop, Prod.map]
    rfl

end Ledger

namespace Store

theorem embeds_memory : Backend.Embeds memory Ledger.backend backend :=
  ⟨fun _ _ => rfl, fun _ _ _ => rfl, fun _ _ => rfl, fun _ => rfl, fun _ _ => rfl⟩

theorem embeds_file (path : Path) : Backend.Embeds (file path) Ledger.backend backend :=
  ⟨fun _ _ => rfl, fun _ _ _ => rfl, fun _ _ => rfl, fun _ => rfl, fun _ _ => rfl⟩

theorem embeds_table : Backend.Embeds table Table.backend backend :=
  ⟨fun _ _ => rfl, fun _ _ _ => rfl, fun _ _ => rfl, fun _ => rfl, fun _ _ => rfl⟩

/-- The stores that nothing has been done to. -/
inductive IsEmpty : Store → Prop
  | memory : IsEmpty (memory [])
  | file (path : Path) : IsEmpty (file path [])
  | table : IsEmpty (table [])

inductive Holds (l : Ledger) : Store → Prop
  | memory : Holds l (memory l)
  | file (path : Path) : Holds l (file path l)
  | table : Holds l (table l.image)

theorem IsEmpty.holds {s : Store} (h : s.IsEmpty) : Holds [] s := by
  cases h with
  | memory => exact .memory
  | file path => exact .file path
  | table => exact .table

section
variable {l : Ledger} {s : Store} {op : Operation}

theorem Holds.perform (hs : Holds l s) (h : l.Valid) (hop : op.IsAccepted l) :
    Holds (Ledger.backend.perform op l).2 (backend.perform op s).2 ∧
      Answer.Sound (backend.perform op s).1 ∧
      (backend.perform op s).1.map Answer.dropZeroSign =
        (Ledger.backend.perform op l).1.map Answer.dropZeroSign := by
  have hsound := (h.perform op).1
  cases hs with
  | memory => rw [embeds_memory.perform]; exact ⟨.memory, hsound, rfl⟩
  | file path => rw [(embeds_file path).perform]; exact ⟨.file path, hsound, rfl⟩
  | table =>
    rw [embeds_table.perform, Ledger.perform_image h hop]
    exact ⟨.table, hsound.dropZeroSign, Answer.map_dropZeroSign_map_dropZeroSign _⟩

end
end Store
end Telemetry
