import Telemetry.Proofs.Store.Reachable

/-!
What an upsert on a ledger amounts to in numbers. The total of a counter is zero as long as there is
none; an upsert adds its delta to the total or takes its reading, and is refused if there is no delta
or no reading in the input or if the sum is no 64-bit integer.
-/
namespace Telemetry

/-- The value that an upsert brings about from a total: the sum with its delta, or its reading. -/
def upsertValue? (total : Int) (i : Input) : Kind → Option Value
  | .counter => (i.delta?.bind fun d => Text.int64? (total + d.toInt)).map .counter
  | .gauge => i.reading?.map .gauge

theorem upsertValue?_counter_eq_none_iff {total : Int} {i : Input} :
    upsertValue? total i .counter = none ↔ i.delta? = none ∨ ∃ d, i.delta? = some d ∧
      (total + d.toInt < Int64.minValue.toInt ∨ Int64.maxValue.toInt < total + d.toInt) := by
  cases hd : i.delta? with
  | none => simp [upsertValue?, hd]
  | some d => simp [upsertValue?, hd, Text.int64?_eq_none_iff]

theorem upsertValue?_gauge_eq_none_iff {total : Int} {i : Input} :
    upsertValue? total i .gauge = none ↔ i.reading? = none := by simp [upsertValue?]

/-- What an upsert that is not refused adds to the total of a counter. -/
def increment (name : String) (key : Key) (i : Input) : Int :=
  if key = ⟨.counter, name⟩ then i.delta?.elim 0 Int64.toInt else 0

def increments (name : String) (items : List Metric) : Int :=
  items.foldr (fun item n => increment name item.key (.ofValue item.value) + n) 0

namespace Store

def value? (key : Key) : Store → Option Value :=
  view (fun l => (l.find? key).map (·.value)) fun t => (t.find? key).bind fun r =>
    match key.kind with
    | .counter => r.int.map .counter
    | .gauge => r.float.map .gauge

def total (name : String) (s : Store) : Int :=
  ((s.value? ⟨.counter, name⟩).bind Value.counter?).elim 0 Int64.toInt

def refill (l : Ledger) : Store → Store
  | memory _ => memory l
  | file path _ => file path l
  | table _ => table l.image

/-- A metric as a store keeps it: a table keeps no sign of zero. -/
def kept (m : Metric) : Store → Metric := view (fun _ => m) fun _ => m.dropZeroSign

/-- The same metric as far as a store can tell: in a table the two zeros are one. -/
def Same (a b : Metric) : Store → Prop := view (fun _ => a = b) fun _ => a.numEq b

@[simp] theorem kept_kept (s : Store) (m : Metric) : s.kept (s.kept m) = s.kept m := by
  cases s <;> simp [kept, view]

theorem wellFormed_kept (s : Store) {m : Metric} (h : m.WellFormed) : (s.kept m).WellFormed := by
  cases s with
  | memory l => exact h
  | file path l => exact h
  | table t => exact h.dropZeroSign

theorem same_of_kept_eq {s : Store} {a b : Metric} (ha : a.WellFormed) (hb : b.WellFormed)
    (h : s.kept a = s.kept b) : s.Same a b := by
  cases s with
  | memory l => exact h
  | file path l => exact h
  | table t => exact Metric.numEq_of_dropZeroSign_eq ha hb h

theorem Holds.refill_eq {l : Ledger} {s : Store} (hs : s.Holds l) : s.refill l = s := by
  cases hs <;> rfl

end Store

namespace Ledger

def total (name : String) (l : Ledger) : Int :=
  ((l.find? ⟨.counter, name⟩).bind (·.value.counter?)).elim 0 Int64.toInt

theorem value_of_key_counter {m : Metric} {name : String} (h : m.key = ⟨.counter, name⟩) :
    ∃ n, m = ⟨name, .counter n⟩ := by
  obtain ⟨name', v⟩ := m
  cases v with
  | counter n => exact ⟨n, by simpa [Metric.key, Metric.kind, Value.kind] using h⟩
  | gauge x => simp [Metric.key, Metric.kind, Value.kind] at h

theorem value_of_key_gauge {m : Metric} {name : String} (h : m.key = ⟨.gauge, name⟩) :
    ∃ x, m = ⟨name, .gauge x⟩ := by
  obtain ⟨name', v⟩ := m
  cases v with
  | counter n => simp [Metric.key, Metric.kind, Value.kind] at h
  | gauge x => exact ⟨x, by simpa [Metric.key, Metric.kind, Value.kind] using h⟩

theorem total_of_find? {l : Ledger} {name : String} {n : Int64}
    (h : l.find? ⟨.counter, name⟩ = some ⟨name, .counter n⟩) : l.total name = n.toInt := by
  simp [total, h, Value.counter?]

theorem total_of_none {l : Ledger} {name : String} (h : l.find? ⟨.counter, name⟩ = none) :
    l.total name = 0 := by
  simp [total, h]

theorem current_counter {l : Ledger} {name : String} {m : Metric}
    (h : l.current ⟨.counter, name⟩ = .ok m) :
    ∃ n, m = ⟨name, .counter n⟩ ∧ n.toInt = l.total name := by
  obtain ⟨n, rfl⟩ := value_of_key_counter (key_of_current h)
  refine ⟨n, rfl, ?_⟩
  cases hf : l.find? ⟨.counter, name⟩ with
  | some a =>
    rw [current_of_some hf] at h
    cases h
    exact (total_of_find? hf).symm
  | none =>
    rw [current_of_none hf] at h
    obtain ⟨-, hzero⟩ := Metric.fresh_eq_ok_iff.1 h
    obtain rfl : n = 0 := by simpa [Value.zero] using hzero
    rw [total_of_none hf]
    rfl

theorem apply_eq_upsertValue? {l : Ledger} {k : Kind} {name : String} {m : Metric}
    (hc : l.current ⟨k, name⟩ = .ok m) (i : Input) :
    l.apply ⟨k, name⟩ i = match upsertValue? (l.total name) i k with
      | some v => .ok (⟨name, v⟩, l.put ⟨name, v⟩)
      | none => .error (.invalidValue k i.display) := by
  have hnext : m.name = name ∧ m.kind = k ∧
      Metric.nextValue? i m.value = upsertValue? (l.total name) i k := by
    cases k with
    | counter =>
      obtain ⟨n, rfl, hn⟩ := current_counter hc
      exact ⟨rfl, rfl, by rw [← hn]; rfl⟩
    | gauge =>
      obtain ⟨x, rfl⟩ := value_of_key_gauge (key_of_current hc)
      exact ⟨rfl, rfl, rfl⟩
  obtain ⟨rfl, rfl, hv⟩ := hnext
  rw [← hv]
  cases hu : Metric.nextValue? i m.value with
  | some v => exact apply_of_ok hc (Metric.update_eq_ok_iff.2 ⟨rfl, hu⟩)
  | none => exact apply_of_error hc (by simp [Metric.update, hu])

theorem total_put_of_ne {l : Ledger} {m : Metric} {name : String} (h : m.key ≠ ⟨.counter, name⟩) :
    (l.put m).total name = l.total name := by
  rw [total, find?_put_of_ne h]
  rfl

theorem total_apply {l l' : Ledger} {key : Key} {i : Input} {m : Metric}
    (h : l.apply key i = .ok (m, l')) (name : String) :
    l'.total name = l.total name + increment name key i := by
  obtain ⟨a, hc, -, hkey, rfl⟩ := apply_eq_ok h
  by_cases hname : key = ⟨.counter, name⟩
  · subst hname
    rw [apply_eq_upsertValue? hc] at h
    cases hv : upsertValue? (l.total name) i .counter with
    | none => simp [hv] at h
    | some v =>
      obtain ⟨n, hn, rfl⟩ := Option.map_eq_some_iff.1 hv
      obtain ⟨d, hd, hsum⟩ := Option.bind_eq_some_iff.1 hn
      rw [hv] at h
      obtain rfl : ⟨name, .counter n⟩ = m := congrArg Prod.fst (Except.ok.inj h)
      rw [total_of_find? (find?_put_self _ l), Text.int64?_eq_some_iff.1 hsum]
      simp [increment, hd]
  · rw [total_put_of_ne (hkey ▸ hname), increment, if_neg hname, Int.add_zero]

theorem total_applyAll (items : List Metric) (l : Ledger) (name : String) :
    (applyAll items l).2.total name = l.total name + increments name (l.accepted items) := by
  induction items generalizing l with
  | nil => exact (Int.add_zero _).symm
  | cons item items ih =>
    cases hu : l.upsert item with
    | error e => simp only [applyAll_cons_error hu, accepted, hu, ih]
    | ok r =>
      have hr : r.2.total name = l.total name + increment name item.key (.ofValue item.value) :=
        total_apply hu name
      simp only [applyAll_cons_ok hu, accepted, hu, ih, hr, increments, List.foldr_cons,
        Int.add_assoc]

theorem increments_of_ne {name : String} {ms : List Metric} (h : ∀ m ∈ ms, m.key ≠ ⟨.counter, name⟩) :
    increments name ms = 0 := by
  induction ms with
  | nil => rfl
  | cons m ms ih =>
    obtain ⟨hm, hms⟩ := List.forall_mem_cons.1 h
    rw [increments, List.foldr_cons, increment, if_neg hm, Int.zero_add]
    exact ih hms

/-- A ledger has each counter once, so its metrics bring of a counter what is its total. -/
theorem Sorted.increments_self {l : Ledger} (h : l.Sorted) (name : String) :
    increments name l = l.total name := by
  induction l with
  | nil => rfl
  | cons m l ih =>
    obtain ⟨hfirst, hrest⟩ := List.pairwise_cons.1 h
    have hcons : increments name (m :: l) =
        increment name m.key (.ofValue m.value) + increments name l := rfl
    by_cases hkey : m.key = ⟨.counter, name⟩
    · have hother : ∀ a ∈ l, a.key ≠ ⟨.counter, name⟩ :=
        fun a ha => hkey ▸ (Key.ne_of_lt (hfirst a ha)).symm
      obtain ⟨n, rfl⟩ := value_of_key_counter hkey
      have hfind : find? (⟨name, .counter n⟩ :: l) ⟨.counter, name⟩ = some ⟨name, .counter n⟩ := by
        simp [find?, hkey]
      rw [hcons, increments_of_ne hother, total_of_find? hfind, Int.add_zero, increment, if_pos hkey]
      rfl
    · have hfind : find? (m :: l) ⟨.counter, name⟩ = find? l ⟨.counter, name⟩ := by simp [find?, hkey]
      rw [hcons, ih hrest, increment, if_neg hkey, Int.zero_add, total, total, hfind]

end Ledger

namespace Store
variable {l l' : Ledger} {key : Key}

theorem total_refill (l : Ledger) (s : Store) (name : String) : (s.refill l).total name = l.total name := by
  cases s with
  | memory _ => cases hf : l.find? ⟨.counter, name⟩ <;> simp [total, value?, view, refill, Ledger.total, hf]
  | file _ _ => cases hf : l.find? ⟨.counter, name⟩ <;> simp [total, value?, view, refill, Ledger.total, hf]
  | table _ =>
    cases hf : l.find? ⟨.counter, name⟩ with
    | none => simp [total, value?, view, refill, Ledger.find?_image, Ledger.total, hf]
    | some m =>
      obtain ⟨n, rfl⟩ := Ledger.value_of_key_counter (Ledger.key_of_find? hf)
      simp [total, value?, view, refill, Ledger.find?_image, Ledger.total, hf, Row.ofMetric,
        Value.counter?]

theorem Holds.total_eq {s : Store} (hs : s.Holds l) (name : String) : s.total name = l.total name := by
  rw [← hs.refill_eq, total_refill]

theorem Holds.holds_refill {s : Store} (hs : s.Holds l) (l' : Ledger) : (s.refill l').Holds l' := by
  cases hs with
  | memory => exact .memory
  | file path => exact .file path
  | table => exact .table

/-- What a store holds under a key depends on nothing but the ledger's metric with this key. -/
theorem value?_refill_congr (h : l.find? key = l'.find? key) (s : Store) :
    (s.refill l).value? key = (s.refill l').value? key := by
  cases s <;> simp [value?, view, refill, Ledger.find?_image, h]

theorem retrieve_refill (h : l.Valid) (s : Store) (key : Key) :
    backend.retrieve key (s.refill l) = (l.retrieve key).map s.kept := by
  have hmap : (l.retrieve key).map id = l.retrieve key := by cases l.retrieve key <;> rfl
  cases s with
  | memory _ => exact hmap.symm
  | file _ _ => exact hmap.symm
  | table _ => exact Ledger.retrieve_image h key

end Store
end Telemetry
