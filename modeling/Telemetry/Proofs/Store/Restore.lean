import Telemetry.Proofs.Store.DumpGrammar
import Telemetry.Proofs.Store.DumpRoundTrip

/-!
Restoring a dump, whatever is in the file. Nothing is taken in unless each line is blank or stands for a metric
and the ledger is empty; then of every key that stands in the file the last value is taken in.
-/
namespace Telemetry
namespace Ledger

section
variable {path : Path} {d : Disk} {l : Ledger} {ms : List Metric} {ls : List (List Char)} {text : String}

theorem restore_of_read_file_error {e : FileError} (h : d.readText path = .error e) (l : Ledger) :
    restore path d l = (if e = .notFound then .ok 0 else .error (.file e), l) := by
  unfold restore
  rw [h]
  cases e <;> rfl

theorem mem_keys_iff_find? {l : Ledger} {key : Key} : key ∈ l.map Metric.key ↔ (l.find? key).isSome := by
  simp [find?, List.find?_isSome]

theorem mem_keys_iff_last? {key : Key} : key ∈ ms.map Metric.key ↔ (last? key ms).isSome := by
  simp [last?, List.find?_isSome]

/-- What restoring a file with these lines makes of a ledger: the first malformed line is reported, whatever the
ledger holds; without one, a ledger that holds anything is left alone, and an empty one gets the keys of the
file, each with the value of the last line that has it. -/
structure RestoresLines (path : Path) (d : Disk) (l : Ledger) (ls : List (List Char)) : Prop where
  malformed : ∀ before cs after, ls = before ++ cs :: after → (∀ b ∈ before, ¬ Dump.IsMalformed b) →
    Dump.IsMalformed cs → ∃ e, Dump.readLine cs = .error e ∧
      restore path d l = (.error (.malformedLine (before.length + 1) e.message), l)
  full : (∀ cs ∈ ls, ¬ Dump.IsMalformed cs) → l ≠ [] → restore path d l = (.error .restoreIntoNonEmpty, l)
  empty : (∀ cs ∈ ls, ¬ Dump.IsMalformed cs) → l = [] → ∃ (ms : List Metric) (l' : Ledger),
    List.Forall₂ Dump.IsEntry (Dump.entries ls) ms ∧ restore path d l = (.ok ms.length, l') ∧ l'.Sorted ∧
      (∀ key, key ∈ l'.map Metric.key ↔ key ∈ ms.map Metric.key) ∧ ∀ key, l'.find? key = last? key ms

theorem restoresLines (hd : d.readText path = .ok text) (hls : Text.IsLines text.toList ls) (l : Ledger) :
    RestoresLines path d l ls := by
  have hread : Dump.read text = Dump.readLines 1 ls := by rw [hls.eq_lines, Dump.read]
  constructor
  · rintro before cs after rfl hbefore hcs
    obtain ⟨e, he, hlines⟩ := Dump.readLines_of_malformed hbefore hcs after 1
    rw [Nat.add_comm 1] at hlines
    exact ⟨e, he, restore_of_read_error hd (hread.trans hlines) l⟩
  · intro hwell hl
    obtain ⟨ms, hlines, -⟩ := Dump.readLines_of_wellFormed hwell 1
    rw [restore_of_read_ok hd (hread.trans hlines)]
    simp [loadIntoEmpty, hl]
  · rintro hwell rfl
    obtain ⟨ms, hlines, hms⟩ := Dump.readLines_of_wellFormed hwell 1
    have hvalid := Valid.nil.loadIntoEmpty (Dump.wellFormed_of_readLines hlines)
    have hfind : ∀ key, (loadIntoEmpty ms []).2.find? key = last? key ms := fun key =>
      (find?_foldl_put ms [] key).trans (Option.or_none)
    refine ⟨ms, (loadIntoEmpty ms []).2, hms, restore_of_read_ok hd (hread.trans hlines) [], hvalid.sorted,
      fun key => ?_, hfind⟩
    rw [mem_keys_iff_find?, hfind, mem_keys_iff_last?]

end

/-- A restore takes in a whole dump or nothing, and says why. -/
theorem restore_exact (path : Path) (d : Disk) (l : Ledger) :
    (d.read path = .error .notFound → restore path d l = (.ok 0, l)) ∧
    (∀ e, d.read path = .error e → e ≠ .notFound → restore path d l = (.error (.file e), l)) ∧
    (∀ b, d.read path = .ok b → b.toText? = none → restore path d l = (.error (.file .notUtf8), l)) ∧
    ∀ text, d.read path = .ok (Bytes.ofText text) →
      ∃ ls, Text.IsLines text.toList ls ∧ RestoresLines path d l ls := by
  refine ⟨fun h => ?_, fun e h he => ?_, fun b h hb => ?_, fun text h => ?_⟩
  · rw [restore_of_read_file_error (Disk.readText_of_read_error h), if_pos rfl]
  · rw [restore_of_read_file_error (Disk.readText_of_read_error h), if_neg he]
  · have htext : d.readText path = .error .notUtf8 := by rw [Disk.readText_of_read_ok h, hb]
    rw [restore_of_read_file_error htext, if_neg (by decide)]
  · have htext : d.readText path = .ok text := by rw [Disk.readText_of_read_ok h, Bytes.toText?_ofText]
    exact ⟨_, Text.isLines_lines _, restoresLines htext (Text.isLines_lines _) l⟩

def dumpDisk (text : String) : Disk := ⟨[(["dump"], some (.file (Bytes.ofText text)))]⟩

/-- Both line endings, blank lines, blanks around a value, a key that comes twice and no ending at the end. -/
def mixedDump : String := "hits:counter: 7 \r\n\n  \nload:gauge:1.5\nhits:counter:-2"

def fractionDump : String := "hits:counter: 7 \r\n\n  \nhits:counter:1.5\nload:gauge:1.5"

theorem restore_exact_mixedDump :
    (∃ l', restore ["dump"] (dumpDisk mixedDump) [] = (.ok 3, l') ∧
      l'.find? ⟨.counter, "hits"⟩ = some ⟨"hits", .counter (-2)⟩) ∧
    restore ["dump"] (dumpDisk mixedDump) plainLedger = (.error .restoreIntoNonEmpty, plainLedger) ∧
    restore ["dump"] (dumpDisk fractionDump) plainLedger =
      (.error (.malformedLine 4 "invalid counter value '1.5'"), plainLedger) ∧
    restore ["lost"] (dumpDisk mixedDump) plainLedger = (.ok 0, plainLedger) := by
  obtain ⟨ls, hls, hempty⟩ := (restore_exact ["dump"] (dumpDisk mixedDump) []).2.2.2 mixedDump rfl
  obtain ⟨ls', hls', hfull⟩ := (restore_exact ["dump"] (dumpDisk mixedDump) plainLedger).2.2.2 mixedDump rfl
  obtain ⟨ls'', hls'', hmalformed⟩ :=
    (restore_exact ["dump"] (dumpDisk fractionDump) plainLedger).2.2.2 fractionDump rfl
  obtain rfl := hls.eq_lines
  obtain rfl := hls'.eq_lines
  obtain rfl := hls''.eq_lines
  have hwell : ∀ cs ∈ Text.lines mixedDump.toList, ¬ Dump.IsMalformed cs := by decide +kernel
  refine ⟨?_, hfull.full hwell (by decide), ?_, (restore_exact ["lost"] _ _).1 rfl⟩
  · obtain ⟨ms, l', hms, hrestore, -, -, hfind⟩ := hempty.empty hwell rfl
    have hentries : Dump.entries (Text.lines mixedDump.toList) =
        ["hits:counter: 7 ".toList, "load:gauge:1.5".toList, "hits:counter:-2".toList] := by decide +kernel
    rw [hentries] at hms
    obtain ⟨first, _, -, hafter, rfl⟩ := List.forall₂_cons_left_iff.1 hms
    obtain ⟨second, _, -, hlast, rfl⟩ := List.forall₂_cons_left_iff.1 hafter
    obtain ⟨third, _, hthird, hnil, rfl⟩ := List.forall₂_cons_left_iff.1 hlast
    obtain rfl := List.forall₂_nil_left_iff.1 hnil
    obtain rfl : third = ⟨"hits", .counter (-2)⟩ := hthird.eq_of_readLine rfl
    refine ⟨l', hrestore, ?_⟩
    rw [hfind]
    simp [last?, Metric.key, Metric.kind, Value.kind]
  · obtain ⟨e, he, hrestore⟩ := hmalformed.malformed ["hits:counter: 7 ".toList, [], "  ".toList]
      "hits:counter:1.5".toList ["load:gauge:1.5".toList] (by decide +kernel) (by decide +kernel) (by decide +kernel)
    obtain rfl : e = .metric (.invalidValue .counter "1.5") := Except.error.inj (he.symm.trans rfl)
    exact hrestore

end Ledger
end Telemetry
