import Telemetry.Proofs.Service.Linearization
import Telemetry.Proofs.Store.Batch

/-!
What a batch does to the stores. In memory it takes what it can; in a table it is one transaction; and
reports of which one stands for no metric do not come to any store.
-/
namespace Telemetry
namespace Service

section
variable {l : Ledger} {items : List Metric} {s : Store}

theorem updateBatch_refill (hs : s.InMemory) (items : List Metric) (l : Ledger) :
    Store.backend.updateBatch items (s.refill l) =
      (.ok (Ledger.applyAll items l).1, s.refill (Ledger.applyAll items l).2) := by
  rw [hs.embeds.updateBatch]
  rfl

theorem updateBatch_table (items : List Metric) (t : Table) :
    Store.backend.updateBatch items (.table t) = Prod.map id Store.table (t.updateBatch items) := rfl

theorem updateAll_of_not_wellFormed {before : List Report} {r : Report}
    (hbefore : ∀ a ∈ before, a.WellFormed) (hr : ¬ r.WellFormed) (after : List Report) {σ : Type}
    (b : Backend σ) (s : σ) :
    updateAll b (before ++ r :: after) s = (.error (.invalid r.defect), s) := by
  simp [updateAll, Report.mapM_toMetric_of_not_wellFormed hbefore hr]

/-- A store in memory always answers a batch: with the states right after the items that can be taken,
each on top of those before it. A table with the same metrics answers alike if these are all the items;
otherwise it tells why the first of the others is refused, and stays, as any table does when it fails.
No store is touched by reports of which one stands for no metric. -/
theorem updateBatch_in_memory_and_table (hl : l.Valid) (hitems : ∀ item ∈ items, item.WellFormed) :
    (∃ taken ms l', Ledger.BestEffort items l taken ms l' ∧ Ledger.BestEffort taken l taken ms l' ∧
      (∀ s : Store, s.InMemory →
        Store.backend.updateBatch items (s.refill l) = (.ok ms, s.refill l')) ∧
      (taken = items → Store.backend.updateBatch items (.table l.image) =
        (.ok (ms.map Metric.dropZeroSign), .table l'.image)) ∧
      (taken ≠ items → ∃ item, Ledger.FirstRefused items l item ∧
        Store.backend.updateBatch items (.table l.image) =
          (.error (.metric (.invalidValue item.kind item.value.text)), .table l.image))) ∧
    (∀ (t : Table) (e : StoreError), (Store.backend.updateBatch items (.table t)).1 = .error e →
      (Store.backend.updateBatch items (.table t)).2 = .table t ∧
      ∃ before item after ms t', items = before ++ item :: after ∧
        t.upsertAll before = (.ok ms, t') ∧ (t'.upsert item).1 = .error e) ∧
    ∀ (before after : List Report) (r : Report), (∀ a ∈ before, a.WellFormed) → ¬ r.WellFormed →
      ∀ {σ : Type} (b : Backend σ) (s : σ),
        updateAll b (before ++ r :: after) s = (.error (.invalid r.defect), s) := by
  have heffort := Ledger.bestEffort_applyAll hitems l
  refine ⟨⟨_, _, _, heffort, heffort.of_taken, fun s hs => updateBatch_refill hs items l, ?_, ?_⟩,
    ?_, fun before after r hbefore hr σ b s => updateAll_of_not_wellFormed hbefore hr after b s⟩
  · intro hall
    rw [updateBatch_table, Ledger.updateBatch_image_ok hl hall]
    rfl
  · intro hsome
    obtain ⟨item, hrefused⟩ := heffort.exists_firstRefused hsome
    have herror := Ledger.upsertAll_image_of_firstRefused hl hitems hrefused
    refine ⟨item, hrefused, ?_⟩
    rw [updateBatch_table, Table.updateBatch, Table.transaction_of_error herror]
    rfl
  · intro t e he
    cases hsteps : (t.upsertAll items).1 with
    | ok ms =>
      have hok : (t.updateBatch items).1 = .ok ms := by
        simp only [Table.updateBatch, Table.transaction]
        split
        · next a t' h => rw [h] at hsteps; exact hsteps
        · next e' t' h => simp [h] at hsteps
      rw [updateBatch_table, Prod.map_fst, hok] at he
      cases he
    | error e' =>
      have hback : t.updateBatch items = (.error e', t) := Table.transaction_of_error hsteps
      rw [updateBatch_table, hback] at he ⊢
      obtain rfl : e' = e := Except.error.inj he
      exact ⟨rfl, Table.exists_failing_of_upsertAll hsteps⟩

def almostFull : Ledger := [⟨"hits", .counter 9223372036854775806⟩]

/-- An item that is taken, one for which no room is left, and one that has nothing to do with them. -/
def crowdedItems : List Metric :=
  [⟨"hits", .counter 1⟩, ⟨"hits", .counter 1⟩, ⟨"load", .gauge (.ofRatio false 1 2)⟩]

def corruptTable : Table := [⟨"gauge", "load", none, none⟩]

theorem updateBatch_in_memory_and_table_crowdedItems :
    (∃ l', Store.backend.updateBatch crowdedItems (.memory almostFull) =
      (.ok [⟨"hits", .counter 9223372036854775807⟩, ⟨"load", .gauge (.ofRatio false 1 2)⟩],
        .memory l')) ∧
    Store.backend.updateBatch crowdedItems (.table almostFull.image) =
      (.error (.metric (.invalidValue .counter "1")), .table almostFull.image) ∧
    Store.backend.updateBatch crowdedItems (.table corruptTable) =
      (.error (.corruptRow "gauge/load"), .table corruptTable) := by
  have hl : almostFull.Valid := Ledger.Valid.nil.put (by decide)
  have hitems : ∀ item ∈ crowdedItems, item.WellFormed := by decide +kernel
  obtain ⟨⟨taken, ms, l', -, -, hmemory, -, -⟩, htable, -⟩ :=
    updateBatch_in_memory_and_table hl hitems
  have hanswer : (Store.backend.updateBatch crowdedItems (.memory almostFull)).1 = .ok
      [⟨"hits", .counter 9223372036854775807⟩, ⟨"load", .gauge (.ofRatio false 1 2)⟩] := by
    decide +kernel
  have hrefused : (Store.backend.updateBatch crowdedItems (.table almostFull.image)).1 =
      .error (.metric (.invalidValue .counter "1")) := by decide +kernel
  have hcorrupt : (Store.backend.updateBatch crowdedItems (.table corruptTable)).1 =
      .error (.corruptRow "gauge/load") := by decide +kernel
  have hrun : Store.backend.updateBatch crowdedItems (.memory almostFull) = (.ok ms, .memory l') :=
    hmemory (.memory []) (.memory [])
  have hafter : (Store.backend.updateBatch crowdedItems (.memory almostFull)).2 = .memory l' := by
    rw [hrun]
  exact ⟨⟨l', Prod.ext hanswer hafter⟩, Prod.ext hrefused (htable _ _ hrefused).1,
    Prod.ext hcorrupt (htable _ _ hcorrupt).1⟩

end
end Service
end Telemetry
