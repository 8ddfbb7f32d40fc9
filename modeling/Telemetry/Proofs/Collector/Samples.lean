import Mathlib.Data.List.Nodup
import Telemetry.Collector.Host
import Telemetry.Proofs.Collector.Polls
import Telemetry.Proofs.Metric.Names
import Telemetry.Proofs.Text.Integers

/-!
The names in a sample. The name of a processor is the name of all of them together and a number behind it; as
no other fixed name begins like this and numbers have different digits, no name stands in a sample twice. So
each reading of a poll is taken if it is finite, and is what is found under its name afterwards.
-/
namespace Telemetry

namespace Collector

namespace Host

section Names
variable {count : Nat}

theorem toList_processorName (i : Nat) :
    (processorName i).toList = "CPUutilization".toList ++ Text.natDigits (i + 1) :=
  String.toList_ofList

theorem processorName_injective : Function.Injective processorName := by
  intro i j h
  have hlists := congrArg String.toList h
  rw [toList_processorName, toList_processorName] at hlists
  have hdigits : Text.natDigits (i + 1) = Text.natDigits (j + 1) := List.append_cancel_left hlists
  exact Nat.succ_injective (Decimal.natDigits_injective hdigits)

theorem isName_processorName (i : Nat) : isName (processorName i) := by
  have hrest : ∀ d ∈ "PUutilization".toList, isNameRest d := List.all_eq_true.1 (by decide)
  refine isName_iff.2 ⟨'C', "PUutilization".toList ++ Text.natDigits (i + 1), toList_processorName i,
    isNameStart_iff.1 (by decide), fun d hd => ?_⟩
  rcases List.mem_append.1 hd with hd | hd
  · exact isNameRest_iff.1 (hrest d hd)
  · have hdigit : Decimal.isDigit d = true := Decimal.isDigit_of_mem_natDigits hd
    exact .inr (by simpa [Decimal.isDigit] using hdigit)

/-- A name that begins as those of processors do only if it is no longer than that is none of them. -/
theorem processorName_ne {name : String}
    (h : "CPUutilization".toList <+: name.toList → name = "CPUutilization") (i : Nat) :
    processorName i ≠ name := by
  rintro rfl
  have hname : processorName i = "CPUutilization" :=
    h (toList_processorName i ▸ List.prefix_append _ _)
  have hlist := (toList_processorName i).symm.trans (congrArg String.toList hname)
  exact Text.natDigits_ne_nil (i + 1) (List.append_right_eq_self.1 hlist)

theorem names_perm (count : Nat) :
    (names count).Perm (names 0 ++ (List.range count).map processorName) := by
  have hsplit : ∀ count, names count = memoryNames ++ ["CPUutilization", "CPUCount"] ++
      ((List.range count).map processorName ++
        (["LoadAverage1", "LoadAverage5", "LoadAverage15", "Uptime"] ++ networkNames ++ processNames)) := by
    intro count
    simp [names, processorNames]
  rw [hsplit count, hsplit 0, List.range_zero, List.map_nil, List.nil_append, List.append_assoc _ _
    ((List.range count).map processorName)]
  exact List.perm_append_comm.append_left _

theorem mem_names_iff {name : String} :
    name ∈ names count ↔ name ∈ names 0 ∨ ∃ i < count, processorName i = name := by
  simp [(names_perm count).mem_iff]

theorem length_names (count : Nat) : (names count).length = 24 + count := by
  have hfixed : (names 0).length = 24 := by decide
  rw [(names_perm count).length_eq, List.length_append, List.length_map, List.length_range, hfixed]

theorem eq_of_prefix_of_mem_fixed : ∀ name ∈ names 0,
    "CPUutilization".toList <+: name.toList → name = "CPUutilization" := by
  decide

theorem nodup_names (count : Nat) : (names count).Nodup := by
  have hfixed : (names 0).Nodup := by decide
  refine (names_perm count).nodup_iff.2 (List.nodup_append.2
    ⟨hfixed, List.nodup_range.map processorName_injective, fun name hname other hother => ?_⟩)
  obtain ⟨i, -, rfl⟩ := List.mem_map.1 hother
  exact (processorName_ne (eq_of_prefix_of_mem_fixed name hname) i).symm

theorem isName_of_mem_names {name : String} (h : name ∈ names count) : isName name := by
  have hfixed : ∀ name ∈ names 0, isName name := by decide
  rcases mem_names_iff.1 h with h | ⟨i, -, rfl⟩
  · exact hfixed name h
  · exact isName_processorName i

theorem ne_own_of_mem_names {name : String} (h : name ∈ names count) :
    name ≠ pollCount.name ∧ name ≠ randomValue.name := by
  have hfixed : ∀ name ∈ names 0, name ≠ pollCount.name ∧ name ≠ randomValue.name := by decide
  rcases mem_names_iff.1 h with h | ⟨i, -, rfl⟩
  · exact hfixed name h
  · exact ⟨processorName_ne (by decide) i, processorName_ne (by decide) i⟩

end Names

section Samples

theorem map_name_named {names : List String} {values : List (Option Binary64)}
    (h : names.length = values.length) : (named names values).map Reading.name = names := by
  induction names generalizing values with
  | nil => rfl
  | cons name names ih =>
    cases values with
    | nil => cases h
    | cons value values => exact congrArg (name :: ·) (ih (Nat.succ.inj h))

theorem map_name_processors (p : Processors) : p.readings.map Reading.name = processorNames p.each.length :=
  map_name_named (by simp [processorNames])

theorem map_name_process (p : Option Process) : (processReadings p).map Reading.name = processNames := by
  cases p <;> rfl

theorem map_name_sample (v : View) : (sample v).map Reading.name = names v.processors.each.length := by
  have hmemory : v.memory.readings.map Reading.name = memoryNames := rfl
  have hnetwork : (networkReadings v.interfaces).map Reading.name = networkNames := rfl
  simp only [sample, List.map_append, hmemory, hnetwork, map_name_processors, map_name_process, names]

end Samples
end Host

section Polls
open Ledger
variable {key : Key} {name : String} {readings : List Reading}

/-- What is applied under one key leaves what is found under the others. -/
theorem find?_tally_of_ne {key' : Key} (h : key' ≠ key) (i : Input) (s : Nat × Ledger) :
    (tally key' i s).2.find? key = s.2.find? key := by
  unfold tally
  split
  · next m l' happly =>
    obtain ⟨-, -, -, rfl, rfl⟩ := apply_eq_ok happly
    exact find?_put_of_ne h s.2
  · rfl

theorem apply_float_eq (hname : isName name) (x : Binary64) (l : Ledger) :
    l.apply ⟨.gauge, name⟩ (.float x) =
      if x.isFinite then .ok (⟨name, .gauge x⟩, l.put ⟨name, .gauge x⟩)
      else .error (.invalidValue .gauge (Input.float x).display) := by
  by_cases hx : x.isFinite
  · rw [if_pos hx, apply_float hname hx]
  · obtain ⟨m, hm⟩ : ∃ m, l.current ⟨.gauge, name⟩ = .ok m := exists_current hname l
    have hvalue : upsertValue? (l.total name) (.float x) .gauge = none := by
      simp [upsertValue?, Input.reading?, Input.number?, hx]
    rw [if_neg hx, apply_eq_upsertValue? hm, hvalue]

theorem find?_tally_gauge (hname : isName name) {x : Binary64} (hx : x.isFinite) (s : Nat × Ledger) :
    (tally ⟨.gauge, name⟩ (.float x) s).2.find? ⟨.gauge, name⟩ = some ⟨name, .gauge x⟩ := by
  rw [tally, apply_float hname hx]
  exact find?_put_self ⟨name, .gauge x⟩ s.2

theorem find?_applySample_of_ne (h : ∀ r ∈ readings, r.name ≠ name) (s : Nat × Ledger) :
    (applySample readings s).2.find? ⟨.gauge, name⟩ = s.2.find? ⟨.gauge, name⟩ := by
  induction readings generalizing s with
  | nil => rfl
  | cons r readings ih =>
    obtain ⟨hr, hrest⟩ := List.forall_mem_cons.1 h
    have hne : (⟨.gauge, r.name⟩ : Key) ≠ ⟨.gauge, name⟩ := fun heq => hr (congrArg Key.name heq)
    rw [applySample, List.foldl_cons]
    refine (ih hrest _).trans ?_
    cases r.value with
    | some x => exact find?_tally_of_ne hne (.float x) s
    | none => rfl

/-- Of readings with different names each that is finite stays, whatever comes after it. -/
theorem find?_applySample (hnames : ∀ r ∈ readings, isName r.name)
    (hnodup : (readings.map Reading.name).Nodup) {r : Reading} (hr : r ∈ readings) {x : Binary64}
    (hvalue : r.value = some x) (hx : x.isFinite) (s : Nat × Ledger) :
    (applySample readings s).2.find? ⟨.gauge, r.name⟩ = some ⟨r.name, .gauge x⟩ := by
  induction readings generalizing s with
  | nil => cases hr
  | cons a readings ih =>
    obtain ⟨ha, hrest⟩ := List.nodup_cons.1 hnodup
    rcases List.mem_cons.1 hr with rfl | hr
    · have hothers : ∀ b ∈ readings, b.name ≠ r.name := fun b hb heq =>
        ha (heq ▸ List.mem_map_of_mem hb)
      rw [applySample, List.foldl_cons, hvalue]
      exact (find?_applySample_of_ne hothers _).trans (find?_tally_gauge (hnames r hr) hx s)
    · exact ih (fun b hb => hnames b (List.mem_cons_of_mem _ hb)) hrest hr _

theorem find?_poll {random : Binary64} (hname : name ≠ randomValue.name) (l : Ledger) :
    (poll random readings l).2.find? ⟨.gauge, name⟩ =
      (applySample readings (0, l)).2.find? ⟨.gauge, name⟩ := by
  have hrandom : randomValue ≠ ⟨.gauge, name⟩ := fun heq => hname (congrArg Key.name heq).symm
  have hcount : pollCount ≠ ⟨.gauge, name⟩ := fun heq => nomatch congrArg Key.kind heq
  rw [poll, find?_tally_of_ne hrandom, find?_tally_of_ne hcount]

end Polls

namespace Host

/-- Every sample has 24 readings and one for each processor. Their names are names of metrics, all different
and none of them of the collector's own; so a reading that is not a finite number is all that a poll refuses
of it, and each that is one can be found as its gauge afterwards. -/
theorem names_apart (v : View) :
    (sample v).length = 24 + v.processors.each.length ∧
    (∀ r ∈ sample v, checkName r.name = .ok ()) ∧
    ((sample v).map Reading.name).Nodup ∧
    (∀ r ∈ sample v, r.name ≠ pollCount.name ∧ r.name ≠ randomValue.name) ∧
    (∀ r ∈ sample v, ∀ (l : Ledger) (x : Binary64), l.apply ⟨.gauge, r.name⟩ (.float x) =
      if x.isFinite then .ok (⟨r.name, .gauge x⟩, l.put ⟨r.name, .gauge x⟩)
      else .error (.invalidValue .gauge (Input.float x).display)) ∧
    ∀ r ∈ sample v, ∀ x, r.value = some x → x.isFinite → ∀ (random : Binary64) (l : Ledger),
      (poll random (sample v) l).2.find? ⟨.gauge, r.name⟩ = some ⟨r.name, .gauge x⟩ := by
  have hmem : ∀ r ∈ sample v, r.name ∈ names v.processors.each.length := fun r hr =>
    map_name_sample v ▸ List.mem_map_of_mem hr
  have hnames : ∀ r ∈ sample v, isName r.name := fun r hr => isName_of_mem_names (hmem r hr)
  have hnodup : ((sample v).map Reading.name).Nodup := map_name_sample v ▸ nodup_names _
  refine ⟨?_, fun r hr => ?_, hnodup, fun r hr => ne_own_of_mem_names (hmem r hr),
    fun r hr l x => apply_float_eq (hnames r hr) x l, fun r hr x hvalue hx random l => ?_⟩
  · rw [← length_names, ← map_name_sample, List.length_map]
  · rw [checkName, if_pos (hnames r hr)]
  · rw [find?_poll (ne_own_of_mem_names (hmem r hr)).2]
    exact find?_applySample hnames hnodup hr hvalue hx _

/-- A host without memory, with eleven processors, each used by its number, and no process that is seen. -/
def elevenProcessors : View where
  memory := ⟨0, 0, 0, 0, 0, 0, 0⟩
  processors := ⟨.ofInt 6, (List.range 11).map fun i => .ofInt (i + 1), .ofInt 1, .nan, .ofInt 0, 60⟩
  interfaces := [⟨1, 2, 3, 4⟩, ⟨10, 20, 30, 40⟩]
  process := none

/-- The first processor, the eleventh and all together are three gauges. -/
theorem names_apart_elevenProcessors :
    let l := (poll (.zero false) (sample elevenProcessors) []).2
    (sample elevenProcessors).length = 35 ∧
    ((sample elevenProcessors).map Reading.name).Nodup ∧
    l.find? ⟨.gauge, "CPUutilization"⟩ = some ⟨"CPUutilization", .gauge (.ofInt 6)⟩ ∧
    l.find? ⟨.gauge, "CPUutilization1"⟩ = some ⟨"CPUutilization1", .gauge (.ofInt 1)⟩ ∧
    l.find? ⟨.gauge, "CPUutilization11"⟩ = some ⟨"CPUutilization11", .gauge (.ofInt 11)⟩ ∧
    Ledger.apply ⟨.gauge, "LoadAverage5"⟩ (.float .nan) l = .error (.invalidValue .gauge "NaN") := by
  obtain ⟨hlength, -, hnodup, -, happly, hfound⟩ := names_apart elevenProcessors
  exact ⟨hlength, hnodup,
    hfound ⟨"CPUutilization", some (.ofInt 6)⟩ (by decide +kernel) _ rfl (by decide +kernel) _ [],
    hfound ⟨"CPUutilization1", some (.ofInt 1)⟩ (by decide +kernel) _ rfl (by decide +kernel) _ [],
    hfound ⟨"CPUutilization11", some (.ofInt 11)⟩ (by decide +kernel) _ rfl (by decide +kernel) _ [],
    happly ⟨"LoadAverage5", some .nan⟩ (by decide +kernel) _ .nan⟩

end Host
end Collector
end Telemetry
