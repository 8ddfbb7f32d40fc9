import Telemetry.Proofs.Store.DumpGrammar
import Telemetry.Proofs.Store.Operation
import Telemetry.Store.Snapshot

/-!
The stores that can come about: those that start empty, after any operations and, where there is a dump
file, after any restores from any disk. Each of them holds a valid ledger.
-/
namespace Telemetry

namespace Dump

theorem wellFormed_of_readLines {n : Nat} {lines : List (List Char)} {ms : List Metric}
    (h : readLines n lines = .ok ms) : ∀ m ∈ ms, m.WellFormed := by
  induction lines generalizing n ms with
  | nil => cases h; simp
  | cons cs lines ih =>
    rw [readLines] at h
    split at h
    · exact ih h
    · split at h
      · simp at h
      · next m hm =>
        cases hrest : readLines (n + 1) lines with
        | error e => simp [hrest, Except.map] at h
        | ok ms' =>
          simp only [hrest, Except.map, Except.ok.injEq] at h
          subst h
          exact List.forall_mem_cons.2 ⟨(readLine_eq_ok_iff.1 hm).wellFormed, ih hrest⟩

end Dump

namespace Ledger

theorem Valid.restore {l : Ledger} (h : l.Valid) (path : Path) (d : Disk) :
    (restore path d l).2.Valid := by
  unfold Ledger.restore
  split
  · exact h
  · exact h
  · split
    · exact h
    · next ms hread => exact h.loadIntoEmpty (Dump.wellFormed_of_readLines hread)

/-- A valid ledger that has the keys of another one. -/
structure Extends (l l' : Ledger) : Prop where
  valid : l'.Valid
  keys : ∀ key, (l.find? key).isSome → (l'.find? key).isSome

section
variable {l l' l'' : Ledger}

theorem Extends.refl (h : l.Valid) : l.Extends l := ⟨h, fun _ => id⟩

theorem Extends.trans (h : l.Extends l') (h' : l'.Extends l'') : l.Extends l'' :=
  ⟨h'.valid, fun key hkey => h'.keys key (h.keys key hkey)⟩

theorem Valid.extends_perform (h : l.Valid) (op : Operation) : l.Extends (backend.perform op l).2 := by
  refine ⟨(h.perform op).2, fun key hkey => ?_⟩
  cases op with
  | add m hm =>
    cases hf : l.find? m.key with
    | some a => simpa [Backend.perform, backend, add_of_some hf] using hkey
    | none => simpa [Backend.perform, backend, add_of_none hf] using find?_put_isSome m hkey
  | update key' i =>
    cases hf : l.find? key' with
    | none => simpa [Backend.perform, backend, update_of_none hf] using hkey
    | some m =>
      cases hu : m.update i with
      | error e => simpa [Backend.perform, backend, update_of_error hf hu] using hkey
      | ok m' => simpa [Backend.perform, backend, update_of_ok hf hu] using find?_put_isSome m' hkey
  | retrieve key' => exact hkey
  | all => exact hkey
  | updateBatch items hitems => exact find?_applyAll_isSome items hkey

/-- A restore puts metrics into a ledger that has none, or leaves it as it is. -/
theorem Valid.extends_restore (h : l.Valid) (path : Path) (d : Disk) :
    l.Extends (Ledger.restore path d l).2 := by
  refine ⟨h.restore path d, fun key hkey => ?_⟩
  have hfull : l.isEmpty = false := by
    cases l with
    | nil => cases hkey
    | cons m l => rfl
  unfold Ledger.restore
  split
  · exact hkey
  · exact hkey
  · split
    · exact hkey
    · rwa [Ledger.loadIntoEmpty, hfull, if_neg Bool.false_ne_true]

theorem Valid.exists_image_perform (h : l.Valid) (op : Operation) :
    ∃ l' : Ledger, l.Extends l' ∧ (Table.backend.perform op l.image).2 = l'.image := by
  by_cases hop : op.IsAccepted l
  · exact ⟨_, h.extends_perform op, by rw [perform_image h hop]; rfl⟩
  · cases op with
    | updateBatch items hitems =>
      obtain ⟨e, he⟩ := updateBatch_image_error h hitems hop
      exact ⟨l, .refl h, congrArg Prod.snd he⟩
    | add m hm => exact absurd trivial hop
    | update key i => exact absurd trivial hop
    | retrieve key => exact absurd trivial hop
    | all => exact absurd trivial hop

end
end Ledger

namespace Store

/-- The stores that can come about. -/
inductive Reachable : Store → Prop
  | start {s : Store} (hs : s.IsEmpty) : Reachable s
  | perform {s : Store} (hs : Reachable s) (op : Operation) : Reachable (backend.perform op s).2
  | restore {path : Path} {l : Ledger} (hs : Reachable (file path l)) (d : Disk) :
      Reachable (file path (Ledger.restore path d l).2)

/-- Every operation leads from a store that holds a valid ledger to one that holds the same keys. -/
theorem Holds.step {l : Ledger} {s : Store} (hs : s.Holds l) (h : l.Valid) (op : Operation) :
    ∃ l' : Ledger, l.Extends l' ∧ Holds l' (backend.perform op s).2 := by
  cases hs with
  | memory => rw [embeds_memory.perform]; exact ⟨_, h.extends_perform op, .memory⟩
  | file path => rw [(embeds_file path).perform]; exact ⟨_, h.extends_perform op, .file path⟩
  | table =>
    obtain ⟨l', hl, hrows⟩ := h.exists_image_perform op
    rw [embeds_table.perform, Prod.map_snd, hrows]
    exact ⟨l', hl, .table⟩

theorem Reachable.holds {s : Store} (h : s.Reachable) : ∃ l : Ledger, l.Valid ∧ s.Holds l := by
  induction h with
  | start hs => exact ⟨[], .nil, hs.holds⟩
  | perform _ op ih =>
    obtain ⟨l, hl, hs⟩ := ih
    obtain ⟨l', hl', hs'⟩ := hs.step hl op
    exact ⟨l', hl'.valid, hs'⟩
  | @restore path l _ d ih =>
    obtain ⟨l', hl, hs⟩ := ih
    cases hs with
    | file path => exact ⟨_, hl.restore path d, .file path⟩

end Store
end Telemetry
