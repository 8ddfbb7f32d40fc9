import Mathlib.Data.List.Dedup
import Telemetry.Proofs.Store.Merge
import Telemetry.Proofs.Store.Restore

/-!
How much of a dump is kept. A restore counts the lines that it has read, but of lines with one key it keeps only
the last, so the ledger holds as many metrics as were counted only if no key stands on two lines.
-/
namespace Telemetry

namespace Dump
variable {ls : List (List Char)} {ms : List Metric} {n : Nat}

theorem entries_of_readLines (h : readLines n ls = .ok ms) : List.Forall₂ IsEntry (entries ls) ms := by
  induction ls generalizing n ms with
  | nil =>
    cases h
    exact .nil
  | cons cs ls ih =>
    cases hblank : cs.all Text.isBlank with
    | true =>
      rw [readLines, if_pos hblank] at h
      simpa [entries, hblank] using ih h
    | false =>
      rw [readLines, if_neg (by simp [hblank])] at h
      cases hline : readLine cs with
      | error e => simp [hline] at h
      | ok m =>
        cases hrest : readLines (n + 1) ls with
        | error e => simp [hline, hrest, Except.map] at h
        | ok rest =>
          obtain rfl : m :: rest = ms := by simpa [hline, hrest, Except.map] using h
          simpa [entries, hblank] using List.Forall₂.cons (readLine_eq_ok_iff.1 hline) (ih hrest)

end Dump

namespace Ledger

section
variable {l : Ledger} {ms : List Metric} {m : Metric} {key : Key}

theorem last?_eq_some_of_nodup (h : (ms.map Metric.key).Nodup) : last? m.key ms = some m ↔ m ∈ ms := by
  constructor
  · intro hm
    exact List.mem_reverse.1 (List.mem_of_find?_eq_some hm)
  · intro hm
    obtain ⟨a, ha⟩ := Option.isSome_iff_exists.1 (mem_keys_iff_last?.1 (List.mem_map_of_mem hm))
    have hmem : a ∈ ms := List.mem_reverse.1 (List.mem_of_find?_eq_some ha)
    have hkey : a.key = m.key := by simpa using List.find?_some ha
    rwa [List.inj_on_of_nodup_map h hmem hm hkey] at ha

/-- The ledger holds what the last lines with their keys say, and nothing else. -/
structure HoldsLast (l : Ledger) (ms : List Metric) : Prop where
  sorted : l.Sorted
  find?_eq : ∀ key, l.find? key = last? key ms

theorem holdsLast_loadIntoEmpty (h : ∀ m ∈ ms, m.WellFormed) :
    HoldsLast (loadIntoEmpty ms []).2 ms where
  sorted := (Valid.nil.loadIntoEmpty h).sorted
  find?_eq key := (find?_foldl_put ms [] key).trans Option.or_none

theorem HoldsLast.mem_iff (h : HoldsLast l ms) : m ∈ l ↔ last? m.key ms = some m := by
  rw [← h.find?_eq, h.sorted.find?_eq_some_iff]
  simp

theorem HoldsLast.keys_perm (h : HoldsLast l ms) :
    (l.map Metric.key).Perm (ms.map Metric.key).dedup := by
  have hnodup : (l.map Metric.key).Nodup :=
    List.pairwise_map.2 (h.sorted.imp fun hlt => Key.ne_of_lt hlt)
  rw [List.perm_ext_iff_of_nodup hnodup (List.nodup_dedup _)]
  intro key
  rw [List.mem_dedup, mem_keys_iff_find?, mem_keys_iff_last?, h.find?_eq]

theorem HoldsLast.length_eq_iff (h : HoldsLast l ms) :
    l.length = ms.length ↔ (ms.map Metric.key).Nodup := by
  have hlength : l.length = (ms.map Metric.key).dedup.length := by
    rw [← h.keys_perm.length_eq, List.length_map]
  have hcount : ms.length = (ms.map Metric.key).length := (List.length_map _).symm
  rw [hlength, hcount, ← List.dedup_eq_self]
  exact ⟨fun heq => (List.dedup_sublist _).eq_of_length heq, congrArg List.length⟩

theorem HoldsLast.perm (h : HoldsLast l ms) (hnodup : (ms.map Metric.key).Nodup) : l.Perm ms := by
  rw [List.perm_ext_iff_of_nodup h.sorted.nodup hnodup.of_map]
  intro m
  rw [h.mem_iff, last?_eq_some_of_nodup hnodup]

end

/-- Of a dump that is taken in, each line that is not blank is counted, and of each key the last line is kept;
so the count is that of the metrics, and every line has its metric, if and only if no key comes twice. -/
theorem restore_keeps_last {path : Path} {d : Disk} {text : String} {n : Nat} {l : Ledger}
    (hd : d.read path = .ok (Bytes.ofText text)) (h : restore path d [] = (.ok n, l)) :
    ∃ ls ms, Text.IsLines text.toList ls ∧ List.Forall₂ Dump.IsEntry (Dump.entries ls) ms ∧
      n = (Dump.entries ls).length ∧ (∀ m, m ∈ l ↔ last? m.key ms = some m) ∧
      (l.map Metric.key).Perm (ms.map Metric.key).dedup ∧
      (l.length = n ↔ (ms.map Metric.key).Nodup) ∧ ((ms.map Metric.key).Nodup → l.Perm ms) := by
  have htext : d.readText path = .ok text := by rw [Disk.readText_of_read_ok hd, Bytes.toText?_ofText]
  cases hread : Dump.read text with
  | error e =>
    rw [restore_of_read_error htext hread] at h
    cases h
  | ok ms =>
    rw [restore_of_read_ok htext hread] at h
    obtain ⟨rfl, rfl⟩ : ms.length = n ∧ (loadIntoEmpty ms []).2 = l := by
      simpa [loadIntoEmpty] using h
    have hentries := Dump.entries_of_readLines hread
    have hholds := holdsLast_loadIntoEmpty (Dump.wellFormed_of_readLines hread)
    exact ⟨_, ms, Text.isLines_lines _, hentries, hentries.length_eq.symm, fun m => hholds.mem_iff,
      hholds.keys_perm, hholds.length_eq_iff, hholds.perm⟩

def repeatedDump : String := "hits:counter:1\nhits:counter:2\n"

/-- Two lines are counted, and one metric is there. -/
theorem repeated_line_is_lost :
    (Dump.entries (Text.lines repeatedDump.toList)).length = 2 ∧
      restore ["dump"] (dumpDisk repeatedDump) [] = (.ok 2, [⟨"hits", .counter 2⟩]) := by
  decide +kernel

/-- A dump with two lines for one counter and one for a gauge: three lines, two metrics. -/
theorem restore_keeps_last_mixedDump : ∃ (l : Ledger) (ls : List (List Char)) (ms : List Metric),
    restore ["dump"] (dumpDisk mixedDump) [] = (.ok 3, l) ∧ Text.IsLines mixedDump.toList ls ∧
      3 = (Dump.entries ls).length ∧ l.length = 2 ∧ (∀ m, m ∈ l ↔ last? m.key ms = some m) ∧
      ¬ (ms.map Metric.key).Nodup := by
  have hrestore : restore ["dump"] (dumpDisk mixedDump) [] =
      (.ok 3, (restore ["dump"] (dumpDisk mixedDump) []).2) := by decide +kernel
  have hlength : (restore ["dump"] (dumpDisk mixedDump) []).2.length = 2 := by decide +kernel
  have hread : (dumpDisk mixedDump).read ["dump"] = .ok (Bytes.ofText mixedDump) := rfl
  obtain ⟨ls, ms, hls, -, hcount, hmem, -, hall, -⟩ := restore_keeps_last hread hrestore
  refine ⟨_, ls, ms, hrestore, hls, hcount, hlength, hmem, fun hnodup => ?_⟩
  rw [← hall, hlength] at hnodup
  cases hnodup

end Ledger
end Telemetry
