import Telemetry.Collector.Poll
import Telemetry.Proofs.Store.Totals

/-!
What polls leave behind. A poll is a row of writes: the gauges of the readings that it can take, the number
of polls up to it and a random gauge; what is found under a key is the last that has been written there. So
a run leaves the number of its polls, the last random gauge, and of every other gauge the last reading that
could be taken.
-/
namespace Telemetry

namespace Ledger

section Single
variable {l : Ledger} {name : String}

theorem apply_float (hname : isName name) {x : Binary64} (hx : x.isFinite) (l : Ledger) :
    l.apply ⟨.gauge, name⟩ (.float x) = .ok (⟨name, .gauge x⟩, l.put ⟨name, .gauge x⟩) := by
  obtain ⟨m, hm⟩ : ∃ m, l.current ⟨.gauge, name⟩ = .ok m := exists_current hname l
  have hvalue : upsertValue? (l.total name) (.float x) .gauge = some (.gauge x) := by
    simp [upsertValue?, Input.reading?, Input.number?, hx]
  rw [apply_eq_upsertValue? hm, hvalue]

theorem Valid.apply_float_refused (h : l.Valid) {x : Binary64} (hx : (isName name && x.isFinite) = false) :
    ∃ e, l.apply ⟨.gauge, name⟩ (.float x) = .error e := by
  cases hname : isName name with
  | false =>
    have hcurrent : l.current ⟨.gauge, name⟩ = _ := h.current_of_not_isName hname
    exact ⟨_, by rw [apply_eq, hcurrent]; rfl⟩
  | true =>
    rw [hname, Bool.true_and] at hx
    obtain ⟨m, hm⟩ : ∃ m, l.current ⟨.gauge, name⟩ = .ok m := exists_current hname l
    have hvalue : upsertValue? (l.total name) (.float x) .gauge = none := by
      simp [upsertValue?, Input.reading?, Input.number?, hx]
    exact ⟨_, by rw [apply_eq_upsertValue? hm, hvalue]⟩

theorem apply_one (hname : isName name) {count : Nat} (hcount : l.total name = count) {c : Int64}
    (hc : c.toInt = count + 1) : l.apply ⟨.counter, name⟩ (.int 1) =
      .ok (⟨name, .counter c⟩, l.put ⟨name, .counter c⟩) := by
  obtain ⟨m, hm⟩ : ∃ m, l.current ⟨.counter, name⟩ = .ok m := exists_current hname l
  have hvalue : upsertValue? (l.total name) (.int 1) .counter = some (.counter c) := by
    have hsum : Text.int64? (l.total name + 1) = some c :=
      Text.int64?_eq_some_iff.2 (hc.trans (by rw [hcount]))
    simp [upsertValue?, Input.delta?, hsum]
  rw [apply_eq_upsertValue? hm, hvalue]

end Single
end Ledger

namespace Collector
open Ledger

theorem tally_of_ok {key : Key} {i : Input} {m : Metric} {l l' : Ledger}
    (h : l.apply key i = .ok (m, l')) (k : Nat) : tally key i (k, l) = (k + 1, l') := by
  rw [tally, h]

theorem valid_tally {s : Nat × Ledger} (h : s.2.Valid) (key : Key) (i : Input) :
    (tally key i s).2.Valid := by
  unfold tally
  split
  · next ha => exact (h.apply ha).2
  · exact h

theorem valid_applySample {s : Nat × Ledger} (h : s.2.Valid) (readings : List Reading) :
    (applySample readings s).2.Valid := by
  induction readings generalizing s with
  | nil => exact h
  | cons r readings ih =>
    rw [applySample, List.foldl_cons]
    refine ih ?_
    cases r.value with
    | some x => exact valid_tally h _ _
    | none => exact h

theorem valid_poll {l : Ledger} (h : l.Valid) (random : Binary64) (readings : List Reading) :
    (poll random readings l).2.Valid :=
  valid_tally (valid_tally (valid_applySample h readings) _ _) _ _

/-- The gauge that a reading makes. There is none if it failed, is not finite or has no proper name. -/
def Reading.gauge? (r : Reading) : Option Metric :=
  r.value.bind fun x => if isName r.name && x.isFinite then some ⟨r.name, .gauge x⟩ else none

section Readings
variable {r : Reading} {l : Ledger} {m : Metric}

theorem Reading.gauge?_eq_some (h : r.gauge? = some m) :
    ∃ x, r.value = some x ∧ isName r.name ∧ x.isFinite ∧ m = ⟨r.name, .gauge x⟩ := by
  obtain ⟨x, hx, hm⟩ := Option.bind_eq_some_iff.1 h
  split at hm
  · next hboth =>
    rw [Bool.and_eq_true] at hboth
    exact ⟨x, hx, hboth.1, hboth.2, (Option.some.inj hm).symm⟩
  · cases hm

theorem applySample_taken (h : r.gauge? = some m) (k : Nat) (l : Ledger) :
    applySample [r] (k, l) = (k + 1, l.put m) := by
  obtain ⟨x, hvalue, hname, hfinite, rfl⟩ := Reading.gauge?_eq_some h
  simp [applySample, hvalue, tally, apply_float hname hfinite l]

theorem applySample_refused (hl : l.Valid) (h : r.gauge? = none) (k : Nat) :
    applySample [r] (k, l) = (k, l) := by
  cases hvalue : r.value with
  | none => simp [applySample, hvalue]
  | some x =>
    have hrefused : (isName r.name && x.isFinite) = false := by
      simpa [Reading.gauge?, hvalue] using h
    obtain ⟨e, he⟩ := hl.apply_float_refused hrefused
    simp [applySample, hvalue, tally, he]

/-- A sample puts in the gauges of its readings, and counts them. -/
theorem applySample_eq (hl : l.Valid) (readings : List Reading) (k : Nat) :
    applySample readings (k, l) = (k + (readings.filterMap Reading.gauge?).length,
      (readings.filterMap Reading.gauge?).foldl (fun l m => l.put m) l) := by
  induction readings generalizing k l with
  | nil => rfl
  | cons r readings ih =>
    have hcons : applySample (r :: readings) (k, l) = applySample readings (applySample [r] (k, l)) := rfl
    have hvalid : (applySample [r] (k, l)).2.Valid := valid_applySample hl [r]
    cases hr : r.gauge? with
    | none => rw [hcons, applySample_refused hl hr, ih hl, List.filterMap_cons_none hr]
    | some m =>
      rw [applySample_taken hr] at hcons hvalid
      rw [hcons, ih hvalid, List.filterMap_cons_some hr, List.length_cons, List.foldl_cons, Nat.add_assoc,
        Nat.add_comm 1]

end Readings

section Polls
variable {l : Ledger} {random : Binary64} {readings : List Reading} {c : Int64}

/-- What a poll writes that brings the counter of polls to `c`. -/
def writes (random : Binary64) (readings : List Reading) (c : Int64) : List Metric :=
  readings.filterMap Reading.gauge? ++ [⟨pollCount.name, .counter c⟩, ⟨randomValue.name, .gauge random⟩]

theorem kind_of_mem_gauges {m : Metric} (h : m ∈ readings.filterMap Reading.gauge?) : m.kind = .gauge := by
  obtain ⟨r, -, hr⟩ := List.mem_filterMap.1 h
  obtain ⟨x, -, -, -, rfl⟩ := Reading.gauge?_eq_some hr
  rfl

theorem last?_counter_gauges (name : String) :
    last? ⟨.counter, name⟩ (readings.filterMap Reading.gauge?) = none := by
  refine last?_eq_none fun m hm hkey => ?_
  have hkind := (congrArg Key.kind hkey).symm.trans (kind_of_mem_gauges hm)
  cases hkind

theorem last?_counter_writes (name : String) :
    last? ⟨.counter, name⟩ (writes random readings c) =
      if name = pollCount.name then some ⟨name, .counter c⟩ else none := by
  rw [writes, last?_append, last?_counter_gauges, Option.or_none]
  by_cases hname : name = pollCount.name
  · simp [last?, hname, Value.kind]
  · simp [last?, hname, Ne.symm hname, Value.kind]

theorem last?_random_writes : last? randomValue (writes random readings c) =
    some ⟨randomValue.name, .gauge random⟩ := by
  rw [writes, last?_append]
  rfl

theorem last?_gauge_writes {name : String} (hname : name ≠ randomValue.name) :
    last? ⟨.gauge, name⟩ (writes random readings c) =
      last? ⟨.gauge, name⟩ (readings.filterMap Reading.gauge?) := by
  have hother : last? ⟨.gauge, name⟩
      [⟨pollCount.name, .counter c⟩, ⟨randomValue.name, .gauge random⟩] = none :=
    last?_eq_none (by simp [Value.kind, Ne.symm hname])
  rw [writes, last?_append, hother, Option.none_or]

theorem poll_eq (hl : l.Valid) (hrandom : random.isFinite) {count : Nat}
    (hcount : l.total pollCount.name = count) (hc : c.toInt = count + 1) :
    poll random readings l = (2 + (readings.filterMap Reading.gauge?).length,
      (writes random readings c).foldl (fun l m => l.put m) l) := by
  rw [poll, applySample_eq hl, writes, List.foldl_append]
  generalize hsample : (readings.filterMap Reading.gauge?).foldl (fun l m => l.put m) l = sampled
  have htotal : sampled.total pollCount.name = count := by
    rw [← hcount, ← hsample, total, find?_foldl_put, last?_counter_gauges]
    rfl
  have hcounted : sampled.apply pollCount (.int 1) = _ := apply_one (by decide) htotal hc
  have hset : ∀ l : Ledger, l.apply randomValue (.float random) = _ := apply_float (by decide) hrandom
  rw [tally_of_ok hcounted, tally_of_ok (hset _), Nat.zero_add, Nat.add_assoc, Nat.add_comm _ 2]
  rfl

end Polls

section Runs
variable {randoms : Nat → Binary64} {samples : Nat → List Reading} {n : Nat}

/-- The gauges of the readings of the first `n` samples, one after another. -/
def gauges (samples : Nat → List Reading) (n : Nat) : List Metric :=
  (List.range n).flatMap fun i => (samples i).filterMap Reading.gauge?

/-- What `n` polls have gathered: the number of them as a total, no other counter, and of every gauge but
the random one the last reading that could be taken. -/
structure Gathers (samples : Nat → List Reading) (n : Nat) (l : Ledger) : Prop where
  valid : l.Valid
  total : l.total pollCount.name = n
  counter : ∀ name, name ≠ pollCount.name → l.find? ⟨.counter, name⟩ = none
  gauge : ∀ name, name ≠ randomValue.name →
    l.find? ⟨.gauge, name⟩ = last? ⟨.gauge, name⟩ (gauges samples n)

/-- From the first poll on both metrics of the polls are there, the random one from 0 up to but not
including 1. -/
structure Collects (samples : Nat → List Reading) (n : Nat) (l : Ledger) : Prop
    extends Gathers samples n l where
  count : ∃ c : Int64, c.toInt = n ∧ l.find? pollCount = some ⟨pollCount.name, .counter c⟩
  random : ∃ x : Binary64, x.inUnitInterval ∧ l.find? randomValue = some ⟨randomValue.name, .gauge x⟩

theorem run_succ (randoms : Nat → Binary64) (samples : Nat → List Reading) (n : Nat) (l : Ledger) :
    run randoms samples (n + 1) l = (poll (randoms n) (samples n) (run randoms samples n l)).2 := by
  simp [run, List.range_succ]

theorem gauges_succ (samples : Nat → List Reading) (n : Nat) :
    gauges samples (n + 1) = gauges samples n ++ (samples n).filterMap Reading.gauge? := by
  simp [gauges, List.range_succ]

theorem isFinite_of_inUnitInterval {x : Binary64} (h : x.inUnitInterval) : x.isFinite := by
  simp only [Binary64.inUnitInterval, Bool.and_eq_true, decide_eq_true_eq] at h
  exact decide_eq_true (Nat.lt_trans h.2 (by decide))

theorem valid_run (randoms : Nat → Binary64) (samples : Nat → List Reading) (n : Nat) :
    (run randoms samples n []).Valid := by
  induction n with
  | zero => exact .nil
  | succ n ih =>
    rw [run_succ]
    exact valid_poll ih _ _

theorem exists_toInt_eq (hmax : (n + 1 : Int) ≤ Int64.maxValue.toInt) : ∃ c : Int64, c.toInt = n + 1 := by
  cases hc : Text.int64? (n + 1 : Int) with
  | some c => exact ⟨c, Text.int64?_eq_some_iff.1 hc⟩
  | none =>
    have hmin : Int64.minValue.toInt < 0 := by decide
    rcases Text.int64?_eq_none_iff.1 hc with hlow | hhigh
    · omega
    · omega

theorem Gathers.poll {l : Ledger} (h : Gathers samples n l) {random : Binary64}
    (hrandom : random.inUnitInterval) (hmax : (n + 1 : Int) ≤ Int64.maxValue.toInt) :
    (poll random (samples n) l).1 = 2 + ((samples n).filterMap Reading.gauge?).length ∧
      Collects samples (n + 1) (poll random (samples n) l).2 := by
  obtain ⟨c, hc⟩ := exists_toInt_eq hmax
  have hvalid := valid_poll h.valid random (samples n)
  rw [poll_eq h.valid (isFinite_of_inUnitInterval hrandom) h.total hc] at hvalid ⊢
  have hfind : ∀ key, find? ((writes random (samples n) c).foldl (fun l m => l.put m) l) key = _ :=
    fun key => find?_foldl_put _ l key
  have hcount := hfind ⟨.counter, pollCount.name⟩
  rw [last?_counter_writes, if_pos rfl, Option.some_or] at hcount
  refine ⟨rfl, ⟨hvalid, (total_of_find? hcount).trans hc, fun name hname => ?_, fun name hname => ?_⟩,
    ⟨c, hc, hcount⟩, random, hrandom, ?_⟩
  · rw [hfind, last?_counter_writes, if_neg hname, h.counter name hname]
    rfl
  · rw [hfind, last?_gauge_writes hname, h.gauge name hname, gauges_succ, last?_append]
  · rw [hfind, last?_random_writes]
    rfl

/-- A run gathers what its polls gather one after another. -/
theorem gathers_run (hrandoms : ∀ i, (randoms i).inUnitInterval) (hmax : (n : Int) ≤ Int64.maxValue.toInt) :
    Gathers samples n (run randoms samples n []) := by
  induction n with
  | zero => exact ⟨.nil, rfl, fun _ _ => rfl, fun _ _ => rfl⟩
  | succ n ih =>
    rw [run_succ]
    exact ((ih (by omega)).poll (hrandoms n) (by omega)).2.toGathers

/-- A reading that makes no gauge can be left out, wherever it stands in its sample. -/
theorem poll_without {l : Ledger} (hl : l.Valid) {before after : List Reading} {r : Reading}
    (hr : r.gauge? = none) (random : Binary64) :
    poll random (before ++ r :: after) l = poll random (before ++ after) l := by
  have hsample : applySample (before ++ r :: after) (0, l) = applySample (before ++ after) (0, l) := by
    rw [applySample_eq hl, applySample_eq hl]
    simp [List.filterMap_cons_none hr]
  rw [poll, hsample]
  rfl

/-- After any number of polls that can be counted, each has applied the readings that could be taken and its
own two metrics, and what they leave behind is all told. -/
theorem run_collects (hrandoms : ∀ i, (randoms i).inUnitInterval) (hpos : 1 ≤ n)
    (hmax : (n : Int) ≤ Int64.maxValue.toInt) :
    Collects samples n (run randoms samples n []) ∧
    (∀ i < n, (poll (randoms i) (samples i) (run randoms samples i [])).1 =
      2 + ((samples i).filterMap Reading.gauge?).length) ∧
    ∀ (i : Nat) (before after : List Reading) (r : Reading), r.gauge? = none →
      poll (randoms i) (before ++ r :: after) (run randoms samples i []) =
        poll (randoms i) (before ++ after) (run randoms samples i []) := by
  have hpoll : ∀ i < n, (poll (randoms i) (samples i) (run randoms samples i [])).1 =
      2 + ((samples i).filterMap Reading.gauge?).length ∧
      Collects samples (i + 1) (poll (randoms i) (samples i) (run randoms samples i [])).2 := by
    intro i hi
    have hgathers : Gathers samples i (run randoms samples i []) := gathers_run hrandoms (by omega)
    exact hgathers.poll (hrandoms i) (by omega)
  refine ⟨?_, fun i hi => (hpoll i hi).1, fun i before after r hr => ?_⟩
  · obtain ⟨last, rfl⟩ : ∃ last, n = last + 1 := ⟨n - 1, by omega⟩
    rw [run_succ]
    exact (hpoll last (Nat.lt_succ_self last)).2
  · exact poll_without (valid_run randoms samples i) hr _

/-- Samples with a reading that failed, some that are not finite, one without a name, and two with the names
of the collector's own metrics. -/
def mixedSamples : Nat → List Reading
  | 0 => [⟨"HeapAlloc", some (.ofInt 1)⟩, ⟨"HeapAlloc", some .nan⟩, ⟨"bad name", some (.ofInt 2)⟩,
      ⟨"Uptime", none⟩, ⟨"RandomValue", some (.ofInt 3)⟩, ⟨"PollCount", some (.ofInt 4)⟩]
  | _ => [⟨"HeapAlloc", some (.ofInt 5)⟩, ⟨"HeapAlloc", some (.ofInt 6)⟩,
      ⟨"HeapAlloc", some (.infinity false)⟩]

/-- Two polls take three and two readings of these samples; the last that was finite stays. -/
theorem run_collects_mixedSamples :
    let l := run (fun _ => .zero false) mixedSamples 2 []
    (poll (.zero false) (mixedSamples 0) []).1 = 5 ∧
    (∃ c : Int64, c.toInt = 2 ∧ l.find? pollCount = some ⟨"PollCount", .counter c⟩) ∧
    (∃ x : Binary64, x.inUnitInterval ∧ l.find? randomValue = some ⟨"RandomValue", .gauge x⟩) ∧
    l.find? ⟨.gauge, "PollCount"⟩ = some ⟨"PollCount", .gauge (.ofInt 4)⟩ ∧
    l.find? ⟨.gauge, "HeapAlloc"⟩ = some ⟨"HeapAlloc", .gauge (.ofInt 6)⟩ ∧
    l.find? ⟨.gauge, "Uptime"⟩ = none := by
  have hrandoms : ∀ _ : Nat, (Binary64.zero false).inUnitInterval := fun _ => by decide
  obtain ⟨hrun, happlied, -⟩ : Collects mixedSamples 2 _ ∧ _ :=
    run_collects hrandoms (by decide) (by decide)
  exact ⟨(happlied 0 (by decide)).trans (by decide +kernel), hrun.count, hrun.random,
    (hrun.gauge "PollCount" (by decide)).trans (by decide +kernel),
    (hrun.gauge "HeapAlloc" (by decide)).trans (by decide +kernel),
    (hrun.gauge "Uptime" (by decide)).trans (by decide +kernel)⟩

end Runs

end Collector
end Telemetry
