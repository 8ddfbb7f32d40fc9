import Telemetry.Proofs.Store.DiskSteps
import Telemetry.Proofs.Store.DumpText

/-!
Saving a ledger and restoring it. What comes back is the ledger itself, value for value, if no name has
a colon in it, and nothing at all if one has.
-/
namespace Telemetry
namespace Ledger

section
variable {path : Path} {d : Disk} {text : String} {ms : List Metric} {e : StoreError}

theorem restore_of_read_ok (hd : d.readText path = .ok text) (hread : Dump.read text = .ok ms)
    (l : Ledger) : restore path d l = l.loadIntoEmpty ms := by simp [restore, hd, hread]

theorem restore_of_read_error (hd : d.readText path = .ok text) (hread : Dump.read text = .error e)
    (l : Ledger) : restore path d l = (.error e, l) := by simp [restore, hd, hread]

theorem Sorted.loadIntoEmpty (h : Sorted ms) :
    loadIntoEmpty ms [] = (.ok ms.length, ms) := by
  have hfold := foldl_put_of_sorted (l := []) h
  simpa [Ledger.loadIntoEmpty] using hfold

end

/-- What a store with a dump file holds can be saved exactly where nothing is in the way. It comes back
from the dump as it was if and only if no name has a colon; otherwise the line of the first metric with
one is refused, in the order of the keys, and nothing comes back. -/
theorem restore_save {path : Path} {l : Ledger} (hs : (Store.file path l).Reachable) (d : Disk) :
    l.Sorted ∧ (¬ d.Admits path → ∃ e, (l.save path d).1 = .error (.file e)) ∧
    (d.Admits path → ∃ d', l.save path d = (.ok l.length, d') ∧
      (restore path d' [] = (.ok l.length, l) ↔ ∀ m ∈ l, ':' ∉ m.name.toList) ∧
      ∀ m, List.find? Dump.hasColon l = some m →
        restore path d' [] = (.error (.malformedLine (List.findIdx Dump.hasColon l + 1)
          (Dump.LineError.fields (m.name.toList.count ':' + 3)).message), [])) := by
  obtain ⟨l', hl, hholds⟩ := hs.holds
  obtain rfl : l = l' := by cases hholds; rfl
  refine ⟨hl.sorted, fun hd => save_of_not_admits hd l, ?_⟩
  intro hd
  obtain ⟨d', hsave, htext⟩ := save_of_admits hd l
  have hrefused : ∀ m, List.find? Dump.hasColon l = some m →
      restore path d' [] = (.error (.malformedLine (List.findIdx Dump.hasColon l + 1)
        (Dump.LineError.fields (m.name.toList.count ':' + 3)).message), []) := by
    intro m hm
    exact restore_of_read_error htext (Dump.read_render_of_find? hl.wellFormed hm) []
  refine ⟨d', hsave, ⟨?_, ?_⟩, hrefused⟩
  · intro hback m hm hcolon
    cases hf : List.find? Dump.hasColon l with
    | none => exact absurd hcolon (by simpa [Dump.hasColon] using List.find?_eq_none.1 hf m hm)
    | some a => simp [hrefused a hf] at hback
  · intro hnone
    have hcolons : ∀ m ∈ l, Dump.hasColon m = false := by simpa [Dump.hasColon] using hnone
    rw [restore_of_read_ok htext (Dump.read_render hl.wellFormed hcolons)]
    exact hl.sorted.loadIntoEmpty

/-- A negative zero, the smallest positive number, a large one and a counter. -/
def plainItems : List Metric :=
  [⟨"low", .gauge (.zero true)⟩, ⟨"tiny", .gauge (.ofIndex false 1)⟩,
    ⟨"high", .gauge (.ofIndex true (2 ^ 62))⟩, ⟨"hits", .counter (-7)⟩]

def plainLedger : Ledger := (Ledger.updateBatch plainItems []).2

def colonLedger : Ledger := (plainLedger.add ⟨"http:requests", .counter 3⟩).2

theorem restore_save_plain_and_colon :
    (∃ d' : Disk, plainLedger.save ["var", "dump"] {} = (.ok 4, d') ∧
      restore ["var", "dump"] d' [] = (.ok 4, plainLedger)) ∧
    ∃ d' : Disk, colonLedger.save ["var", "dump"] {} = (.ok 5, d') ∧
      restore ["var", "dump"] d' [] =
        (.error (.malformedLine 2 "expected 3 ':'-separated fields, found 4"), []) := by
  have hd : Disk.Admits {} ["var", "dump"] := ⟨by decide, by decide, by decide⟩
  have hplain : (Store.file ["var", "dump"] plainLedger).Reachable :=
    .perform (.start (.file ["var", "dump"])) (.updateBatch plainItems (by decide))
  have hcolon : (Store.file ["var", "dump"] colonLedger).Reachable :=
    .perform hplain (.add ⟨"http:requests", .counter 3⟩ (by decide))
  obtain ⟨d', hsave, hback, -⟩ := (restore_save hplain {}).2.2 hd
  obtain ⟨d'', hsave', -, hrefused⟩ := (restore_save hcolon {}).2.2 hd
  refine ⟨⟨d', hsave, hback.2 (by decide)⟩, d'', hsave', ?_⟩
  exact hrefused ⟨"http:requests", .counter 3⟩ (by decide)

end Ledger
end Telemetry
