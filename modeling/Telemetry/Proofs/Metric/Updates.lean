import Mathlib.Algebra.Ring.Int.Defs
import Mathlib.Data.List.Forall2
import Telemetry.Proofs.Metric.WellFormed
import Telemetry.Proofs.Text.Integers

/-!
Updates of one metric, one after another. A counter holds its start value plus the exact sum of the deltas
that it took, a gauge the last reading that it took. Which deltas a counter takes depends on the value that it
has by then; so updates may be put together only at the front of a run from zero, where the sum of those that
were taken is itself a value of the counter.
-/
namespace Telemetry

/-- An integer comes typed, or as a text that writes it between blanks. -/
inductive Input.IsInteger : Input → Int64 → Prop
  | int (n : Int64) : IsInteger (.int n) n
  | text {s : String} {n : Int64} (h : Text.IsInt64Literal (Text.trim s.toList) n) : IsInteger (.text s) n

theorem Input.isInteger_text_iff {s : String} {n : Int64} :
    (Input.text s).IsInteger n ↔ Text.IsInt64Literal (Text.trim s.toList) n :=
  ⟨fun h => by cases h; assumption, .text⟩

theorem Input.delta?_eq_some_iff {i : Input} {n : Int64} : i.delta? = some n ↔ i.IsInteger n := by
  cases i with
  | int m =>
    refine ⟨fun h => ?_, ?_⟩
    · obtain rfl := Option.some.inj h
      exact .int m
    · rintro ⟨⟩
      rfl
  | float x => exact iff_of_false nofun nofun
  | text s =>
    rw [isInteger_text_iff, ← Text.readInt64_eq_ok_iff, Input.delta?]
    cases Text.readInt64 (Text.trim s.toList) <;> simp [Except.toOption]

theorem Input.IsInteger.unique {i : Input} {n n' : Int64} (h : i.IsInteger n) (h' : i.IsInteger n') :
    n = n' :=
  Option.some.inj ((delta?_eq_some_iff.2 h).symm.trans (delta?_eq_some_iff.2 h'))

namespace Metric

/-- Applies updates in turn, passing over those that are refused: the updates taken, and the metric. -/
def updateEach : List Input → Metric → List Input × Metric
  | [], m => ([], m)
  | i :: is, m =>
    match m.update i with
    | .ok m' =>
      let (taken, m'') := updateEach is m'
      (i :: taken, m'')
    | .error _ => updateEach is m

section Each
variable {m m' : Metric} {i : Input} {is head tail : List Input}

theorem updateEach_cons_ok (h : m.update i = .ok m') (is : List Input) :
    updateEach (i :: is) m = (i :: (updateEach is m').1, (updateEach is m').2) := by
  simp [updateEach, h]

theorem updateEach_cons_error {e : MetricError} (h : m.update i = .error e) (is : List Input) :
    updateEach (i :: is) m = updateEach is m := by
  simp [updateEach, h]

theorem updateEach_append (head tail : List Input) (m : Metric) : updateEach (head ++ tail) m =
    ((updateEach head m).1 ++ (updateEach tail (updateEach head m).2).1,
      (updateEach tail (updateEach head m).2).2) := by
  induction head generalizing m with
  | nil => rfl
  | cons i head ih =>
    cases hu : m.update i with
    | ok m' => simp [updateEach_cons_ok hu, ih]
    | error e => simp [updateEach_cons_error hu, ih]

theorem updateEach_sublist (is : List Input) (m : Metric) : List.Sublist (updateEach is m).1 is := by
  induction is generalizing m with
  | nil => exact List.Sublist.slnil
  | cons i is ih =>
    cases hu : m.update i with
    | ok m' =>
      rw [updateEach_cons_ok hu]
      exact (ih m').cons_cons i
    | error e =>
      rw [updateEach_cons_error hu]
      exact (ih m).cons i

/-- A run takes everything only if each of its parts does. -/
theorem updateEach_eq_self_of_append (h : (updateEach (head ++ tail) m).1 = head ++ tail) :
    (updateEach head m).1 = head ∧ (updateEach tail (updateEach head m).2).1 = tail := by
  rw [updateEach_append] at h
  have hlength := congrArg List.length h
  have hhead := (updateEach_sublist head m).length_le
  have htail := (updateEach_sublist tail (updateEach head m).2).length_le
  simp only [List.length_append] at hlength
  exact List.append_inj h (by omega)

end Each

section Counter
variable {name : String} {n start : Int64} {i : Input} {m : Metric}

theorem update_counter_eq_ok_iff : (Metric.mk name (.counter n)).update i = .ok m ↔
    ∃ d n' : Int64, i.IsInteger d ∧ n'.toInt = n.toInt + d.toInt ∧ m = ⟨name, .counter n'⟩ := by
  obtain ⟨name', v⟩ := m
  simp only [update_eq_ok_iff, nextValue?, Option.map_eq_some_iff, Option.bind_eq_some_iff,
    Input.delta?_eq_some_iff, checkedAdd, Text.int64?_eq_some_iff, Metric.mk.injEq]
  constructor
  · rintro ⟨rfl, n', ⟨d, hd, hn'⟩, rfl⟩
    exact ⟨d, n', hd, hn', rfl, rfl⟩
  · rintro ⟨d, n', hd, hn', rfl, rfl⟩
    exact ⟨rfl, n', ⟨d, hd, hn'⟩, rfl⟩

theorem update_counter_eq_error_iff {e : MetricError} :
    (Metric.mk name (.counter n)).update i = .error e ↔
      (∀ d, i.IsInteger d →
        n.toInt + d.toInt < Int64.minValue.toInt ∨ Int64.maxValue.toInt < n.toInt + d.toInt) ∧
      e = .invalidValue .counter i.display := by
  have hnone : nextValue? i (.counter n) = none ↔ ∀ d, i.IsInteger d →
      n.toInt + d.toInt < Int64.minValue.toInt ∨ Int64.maxValue.toInt < n.toInt + d.toInt := by
    simp only [nextValue?, Option.map_eq_none_iff, Option.bind_eq_none_iff, Input.delta?_eq_some_iff,
      checkedAdd, Text.int64?_eq_none_iff]
  rw [← hnone, update]
  cases nextValue? i (.counter n) with
  | some v => simp
  | none => simp [kind, Value.kind, eq_comm]

/-- What a counter holds after updates, of which it took those with these deltas, and what becomes of a
further update. -/
structure CountsUp (name : String) (start : Int64) (is : List Input) (deltas : List Int64) (total : Int64) :
    Prop where
  value : (updateEach is ⟨name, .counter start⟩).2 = ⟨name, .counter total⟩
  taken : List.Forall₂ Input.IsInteger (updateEach is ⟨name, .counter start⟩).1 deltas
  order : List.Sublist (updateEach is ⟨name, .counter start⟩).1 is
  sum : total.toInt = start.toInt + (deltas.map Int64.toInt).sum
  within : ∀ front, front <+: deltas →
    Int64.minValue.toInt ≤ start.toInt + (front.map Int64.toInt).sum ∧
      start.toInt + (front.map Int64.toInt).sum ≤ Int64.maxValue.toInt
  refused_iff : ∀ i, (∃ e, (Metric.mk name (.counter total)).update i = .error e) ↔
    ∀ d, i.IsInteger d →
      total.toInt + d.toInt < Int64.minValue.toInt ∨ Int64.maxValue.toInt < total.toInt + d.toInt
  refused : ∀ i e, (Metric.mk name (.counter total)).update i = .error e →
    e = .invalidValue .counter i.display ∧
      updateEach (is ++ [i]) ⟨name, .counter start⟩ = updateEach is ⟨name, .counter start⟩
  accepted : ∀ i m, (Metric.mk name (.counter total)).update i = .ok m →
    updateEach (is ++ [i]) ⟨name, .counter start⟩ =
      ((updateEach is ⟨name, .counter start⟩).1 ++ [i], m)

theorem within_int64 (n : Int64) : Int64.minValue.toInt ≤ n.toInt ∧ n.toInt ≤ Int64.maxValue.toInt := by
  have hmin : Int64.minValue.toInt = -9223372036854775808 := rfl
  have hmax : Int64.maxValue.toInt = 9223372036854775807 := rfl
  have hlow := n.le_toInt
  have hhigh := n.toInt_lt
  omega

/-- The sum of what is taken, by induction on the updates; each partial sum is the value that the counter has
at that point, which is why it is a 64-bit integer. -/
theorem exists_deltas (name : String) (start : Int64) (is : List Input) :
    ∃ (deltas : List Int64) (total : Int64),
      (updateEach is ⟨name, .counter start⟩).2 = ⟨name, .counter total⟩ ∧
      List.Forall₂ Input.IsInteger (updateEach is ⟨name, .counter start⟩).1 deltas ∧
      total.toInt = start.toInt + (deltas.map Int64.toInt).sum ∧
      ∀ front, front <+: deltas →
        Int64.minValue.toInt ≤ start.toInt + (front.map Int64.toInt).sum ∧
          start.toInt + (front.map Int64.toInt).sum ≤ Int64.maxValue.toInt := by
  induction is generalizing start with
  | nil =>
    refine ⟨[], start, rfl, .nil, by simp, fun front hfront => ?_⟩
    obtain rfl := List.prefix_nil.1 hfront
    simpa using within_int64 start
  | cons i is ih =>
    cases hu : (Metric.mk name (.counter start)).update i with
    | error e =>
      rw [updateEach_cons_error hu]
      exact ih start
    | ok m =>
      obtain ⟨d, next, hd, hnext, rfl⟩ := update_counter_eq_ok_iff.1 hu
      obtain ⟨deltas, total, hvalue, htaken, hsum, hwithin⟩ := ih next
      rw [updateEach_cons_ok hu]
      refine ⟨d :: deltas, total, hvalue, .cons hd htaken, ?_, fun front hfront => ?_⟩
      · rw [List.map_cons, List.sum_cons]
        omega
      · obtain rfl | ⟨front, rfl, hrest⟩ := List.prefix_cons_iff.1 hfront
        · simpa using within_int64 start
        · have := hwithin front hrest
          rw [List.map_cons, List.sum_cons]
          omega

theorem exists_countsUp (name : String) (start : Int64) (is : List Input) :
    ∃ deltas total, CountsUp name start is deltas total := by
  obtain ⟨deltas, total, hvalue, htaken, hsum, hwithin⟩ := exists_deltas name start is
  refine ⟨deltas, total, hvalue, htaken, updateEach_sublist _ _, hsum, hwithin, fun i => ?_,
    fun i e hu => ⟨(update_counter_eq_error_iff.1 hu).2, ?_⟩, fun i m hu => ?_⟩
  · simp [update_counter_eq_error_iff]
  · rw [updateEach_append, hvalue, updateEach_cons_error hu]
    simp [updateEach, ← hvalue]
  · rw [updateEach_append, hvalue, updateEach_cons_ok hu]
    rfl

end Counter

section Gauge

/-- What a gauge holds after updates: the last of the readings, all of which it took. -/
structure Reads (name : String) (start : Binary64) (is : List Input) : Prop where
  taken : (updateEach is ⟨name, .gauge start⟩).1 = is.filter fun i => i.reading?.isSome
  value : (updateEach is ⟨name, .gauge start⟩).2 =
    ⟨name, .gauge ((is.filterMap Input.reading?).getLast?.getD start)⟩
  finite : ∀ x ∈ is.filterMap Input.reading?, x.isFinite

theorem reads (name : String) (start : Binary64) (is : List Input) : Reads name start is := by
  have hfinite : ∀ x ∈ is.filterMap Input.reading?, x.isFinite := by
    intro x hx
    obtain ⟨i, -, hi⟩ := List.mem_filterMap.1 hx
    exact (Option.filter_eq_some_iff.1 hi).2
  induction is generalizing start with
  | nil => exact ⟨rfl, rfl, hfinite⟩
  | cons i is ih =>
    cases hi : i.reading? with
    | none =>
      have hu : (Metric.mk name (.gauge start)).update i = .error (.invalidValue .gauge i.display) := by
        simp [update, nextValue?, hi, kind, Value.kind]
      have hrest := ih start (by simpa [hi] using hfinite)
      exact ⟨by simp [updateEach_cons_error hu, hi, hrest.taken],
        by simp [updateEach_cons_error hu, hi, hrest.value], hfinite⟩
    | some x =>
      have hu : (Metric.mk name (.gauge start)).update i = .ok ⟨name, .gauge x⟩ := by
        simp [update, nextValue?, hi]
      have hrest := ih x fun y hy => hfinite y (by simp [hi, hy])
      refine ⟨by simp [updateEach_cons_ok hu, hi, hrest.taken], ?_, hfinite⟩
      simp [updateEach_cons_ok hu, hi, hrest.value, List.getLast?_cons]

end Gauge

/-- Updates from zero that are all taken may be put together at the front: the sum is a 64-bit integer, and one
update with it, typed or as a text, leads to the same value. -/
theorem updateEach_regroup {name : String} {head tail : List Input}
    (h : (updateEach (head ++ tail) ⟨name, .counter 0⟩).1 = head ++ tail) :
    ∃ (deltas : List Int64) (sum : Int64), List.Forall₂ Input.IsInteger head deltas ∧
      sum.toInt = (deltas.map Int64.toInt).sum ∧
      ∀ one : Input, one.IsInteger sum →
        updateEach (one :: tail) ⟨name, .counter 0⟩ =
          (one :: tail, (updateEach (head ++ tail) ⟨name, .counter 0⟩).2) := by
  obtain ⟨hhead, htail⟩ := updateEach_eq_self_of_append h
  obtain ⟨deltas, sum, hvalue, htaken, hsum, -⟩ := exists_deltas name 0 head
  have hzero : (0 : Int64).toInt = 0 := rfl
  rw [hhead] at htaken
  rw [hvalue] at htail
  refine ⟨deltas, sum, htaken, by omega, fun one hone => ?_⟩
  have hu : (Metric.mk name (.counter 0)).update one = .ok ⟨name, .counter sum⟩ :=
    update_counter_eq_ok_iff.2 ⟨sum, sum, hone, by omega, rfl⟩
  rw [updateEach_cons_ok hu, updateEach_append, hvalue, htail]

/-- Counters are exact sums of what they take, gauges hold the last reading, and updates of a counter from
zero may be put together at the front. -/
theorem updateEach_exact (name : String) :
    (∀ start is, ∃ deltas total, CountsUp name start is deltas total) ∧
    (∀ start is, Reads name start is) ∧
    ∀ head tail, (updateEach (head ++ tail) ⟨name, .counter 0⟩).1 = head ++ tail →
      ∃ (deltas : List Int64) (sum : Int64), List.Forall₂ Input.IsInteger head deltas ∧
        sum.toInt = (deltas.map Int64.toInt).sum ∧
        ∀ one : Input, one.IsInteger sum →
          updateEach (one :: tail) ⟨name, .counter 0⟩ =
            (one :: tail, (updateEach (head ++ tail) ⟨name, .counter 0⟩).2) :=
  ⟨exists_countsUp name, reads name, fun _ _ => updateEach_regroup⟩

theorem updateEach_exact_requests :
    (updateEach ([.int 7, .text " -2 "] ++ [.text "+40"]) ⟨"requests", .counter 0⟩).1 =
        [.int 7, .text " -2 "] ++ [.text "+40"] ∧
      updateEach [.int 5, .text "+40"] ⟨"requests", .counter 0⟩ =
        ([.int 5, .text "+40"], ⟨"requests", .counter 45⟩) := by
  have htaken : (updateEach ([.int 7, .text " -2 "] ++ [.text "+40"]) ⟨"requests", .counter 0⟩).1 =
      [.int 7, .text " -2 "] ++ [.text "+40"] := by decide +kernel
  refine ⟨htaken, ?_⟩
  obtain ⟨deltas, sum, hdeltas, hsum, hone⟩ := (updateEach_exact "requests").2.2 _ _ htaken
  have hsecond : (Input.text " -2 ").IsInteger (-2) := Input.delta?_eq_some_iff.1 (by decide +kernel)
  obtain ⟨rfl, rfl⟩ : deltas = [7, -2] ∧ sum = 5 := by
    cases hdeltas with
    | cons h hrest =>
      cases hrest with
      | cons h' hnil =>
        cases hnil
        obtain rfl := h.unique (.int 7)
        obtain rfl := h'.unique hsecond
        exact ⟨rfl, Int64.toInt_inj.1 hsum⟩
  exact (hone (.int 5) (.int 5)).trans (by decide +kernel)

end Metric
end Telemetry
