import Telemetry.Proofs.Service.Upsert

/-!
What is refused changes nothing. It is so for the operations of every store, a table with rows that stand
for no metric included, and so for every request: a step on the store that is no success leaves it alone.
-/
namespace Telemetry

/-- An operation that is refused leaves the state as it was. -/
structure Backend.KeepsRefused {σ : Type} (b : Backend σ) : Prop where
  add : ∀ {m s e s'}, b.add m s = (.error e, s') → s' = s
  update : ∀ {key i s e s'}, b.update key i s = (.error e, s') → s' = s
  updateBatch : ∀ {items s e s'}, b.updateBatch items s = (.error e, s') → s' = s

namespace Table

theorem insert_error {m : Metric} {t t' : Table} {e : StoreError} (h : t.insert m = (.error e, t')) :
    t' = t := by
  unfold insert at h
  split at h <;> simp_all

theorem keepsRefused : Table.backend.KeepsRefused :=
  ⟨insert_error, transaction_error, transaction_error⟩

end Table

namespace Ledger

theorem add_error {m : Metric} {l l' : Ledger} {e : StoreError} (h : l.add m = (.error e, l')) :
    l' = l := by
  unfold add at h
  split at h <;> simp_all

theorem update_error {key : Key} {i : Input} {l l' : Ledger} {e : StoreError}
    (h : l.update key i = (.error e, l')) : l' = l := by
  unfold update at h
  split at h
  · simp_all
  · split at h <;> simp_all

theorem keepsRefused : Ledger.backend.KeepsRefused :=
  ⟨add_error, update_error, fun h => by simp [backend, updateBatch] at h⟩

end Ledger

namespace Store

theorem run_error {α : Type} {onLedger : Ledger → Except StoreError α × Ledger}
    {onTable : Table → Except StoreError α × Table} {e : StoreError}
    (hl : ∀ {l l'}, onLedger l = (.error e, l') → l' = l)
    (ht : ∀ {t t'}, onTable t = (.error e, t') → t' = t) {s s' : Store}
    (h : run onLedger onTable s = (.error e, s')) : s' = s := by
  obtain ⟨he, rfl⟩ := Prod.mk.inj h
  cases s with
  | memory l => exact congrArg memory (hl (Prod.ext he rfl))
  | file path l => exact congrArg (file path) (hl (Prod.ext he rfl))
  | table t => exact congrArg table (ht (Prod.ext he rfl))

theorem keepsRefused : Store.backend.KeepsRefused where
  add := run_error Ledger.keepsRefused.add Table.keepsRefused.add
  update := run_error Ledger.keepsRefused.update Table.keepsRefused.update
  updateBatch := run_error Ledger.keepsRefused.updateBatch Table.keepsRefused.updateBatch

end Store

namespace Service

section
variable {σ : Type} {b : Backend σ} {e : RequestError} {s s' : σ}

theorem Stage.step_cases (h : b.KeepsRefused) (stage : Stage) (s : σ) :
    (∃ m, (stage.step b s).1 = done (.ok m)) ∨ (stage.step b s).2 = s := by
  cases stage with
  | updating fresh i =>
    simp only [Stage.step]
    rcases hrun : b.update fresh.key i s with ⟨e | m, s'⟩
    · obtain rfl : s' = s := h.update hrun
      right
      split
      · simp_all
      · split <;> simp_all
      · simp_all
    · exact .inl ⟨m, rfl⟩
  | adding m i =>
    simp only [Stage.step]
    rcases hrun : b.add m s with ⟨e | _, s'⟩
    · obtain rfl : s' = s := h.add hrun
      right
      split <;> simp_all
    · exact .inl ⟨m, rfl⟩
  | updatingAgain key i =>
    simp only [Stage.step]
    rcases hrun : b.update key i s with ⟨e | m, s'⟩
    · exact .inr (h.update hrun)
    · exact .inl ⟨m, rfl⟩
  | done answer => exact .inr rfl

theorem Stage.run_cases (h : b.KeepsRefused) (n : Nat) (stage : Stage) (s : σ) :
    (∃ m, (stage.run b n s).1 = done (.ok m)) ∨ (stage.run b n s).2 = s := by
  induction n generalizing stage s with
  | zero => exact .inr rfl
  | succ n ih =>
    simp only [Stage.run]
    rcases stage.step_cases h s with ⟨m, hm⟩ | hs
    · rw [hm, Stage.run_done]
      exact .inl ⟨m, rfl⟩
    · rw [hs]
      exact ih _ s

theorem updateByValue_error (h : b.KeepsRefused) {kind name : String} {i : Input}
    (hrun : updateByValue b kind name i s = (.error e, s')) : s' = s := by
  have hcases := (Stage.start kind name i).run_cases h 3 s
  unfold updateByValue at hrun
  rcases hrun3 : (Stage.start kind name i).run b 3 s with ⟨stage, s''⟩
  rw [hrun3] at hcases hrun
  obtain ⟨he, rfl⟩ := Prod.mk.inj hrun
  rcases hcases with ⟨m, rfl⟩ | hs
  · simp [Stage.answer] at he
  · exact hs

theorem update_error (h : b.KeepsRefused) {r : Report} (hrun : update b r s = (.error e, s')) :
    s' = s := by
  unfold update at hrun
  split at hrun
  · exact (Prod.mk.inj hrun).2.symm
  · exact updateByValue_error h hrun

theorem updateAll_error (h : b.KeepsRefused) {rs : List Report}
    (hrun : updateAll b rs s = (.error e, s')) : s' = s := by
  unfold updateAll at hrun
  split at hrun
  · exact (Prod.mk.inj hrun).2.symm
  · split at hrun
    · simp at hrun
    · next hbatch =>
      rw [← (Prod.mk.inj hrun).2]
      exact h.updateBatch hbatch

end

end Service
end Telemetry
