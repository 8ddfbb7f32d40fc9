import Telemetry.Metric.Basic

/-!
The metrics that can be built: the name is one and a reading is finite. Constructors and updates stay
among them. Metrics are also compared with their readings as numbers, so that the two zeros are one.
-/
namespace Telemetry

namespace Binary64

theorem isNaN_eq_false {x : Binary64} (h : x.isFinite) : x.isNaN = false := by
  have hx : x.index < infinityIndex := by simpa [isFinite] using h
  simp only [isNaN, decide_eq_false_iff_not]
  omega

@[simp] theorem isFinite_dropZeroSign (x : Binary64) : x.dropZeroSign.isFinite = x.isFinite := by
  unfold dropZeroSign
  split
  · next h =>
    have hx : x.index = 0 := by simpa [isZero] using h
    simp [isFinite, hx, zero, ofIndex, infinityIndex]
  · rfl

@[simp] theorem dropZeroSign_dropZeroSign (x : Binary64) :
    x.dropZeroSign.dropZeroSign = x.dropZeroSign := by
  by_cases h : x.isZero
  · simp [dropZeroSign, h]
  · simp [dropZeroSign, h]

theorem numEq_of_dropZeroSign_eq {x y : Binary64} (hx : x.isFinite) (hy : y.isFinite)
    (h : x.dropZeroSign = y.dropZeroSign) : x.numEq y := by
  simp [numEq, isNaN_eq_false hx, isNaN_eq_false hy, h]

end Binary64

namespace Value

def isFinite : Value → Bool
  | counter _ => true
  | gauge x => x.isFinite

/-- The state as a database keeps it. -/
def dropZeroSign : Value → Value
  | counter n => counter n
  | gauge x => gauge x.dropZeroSign

def numEq : Value → Value → Bool
  | counter m, counter n => m == n
  | gauge x, gauge y => x.numEq y
  | _, _ => false

@[simp] theorem kind_dropZeroSign (v : Value) : v.dropZeroSign.kind = v.kind := by
  cases v <;> rfl

theorem numEq_of_dropZeroSign_eq {v w : Value} (hv : v.isFinite) (hw : w.isFinite)
    (h : v.dropZeroSign = w.dropZeroSign) : v.numEq w := by
  cases v with
  | counter m => cases w <;> simp_all [dropZeroSign, numEq]
  | gauge x =>
    cases w with
    | counter n => simp [dropZeroSign] at h
    | gauge y => exact Binary64.numEq_of_dropZeroSign_eq hv hw (gauge.inj h)

end Value

namespace Input

theorem isFinite_of_reading? {i : Input} {x : Binary64} (h : i.reading? = some x) : x.isFinite :=
  (Option.filter_eq_some_iff.1 h).2

end Input

namespace Metric

structure WellFormed (m : Metric) : Prop where
  name : isName m.name
  finite : m.value.isFinite

instance (m : Metric) : Decidable m.WellFormed :=
  decidable_of_iff (isName m.name ∧ m.value.isFinite) ⟨fun h => ⟨h.1, h.2⟩, fun h => ⟨h.1, h.2⟩⟩

theorem withValue_eq_ok_iff {name : String} {v : Value} {m : Metric} :
    withValue name v = .ok m ↔ m = ⟨name, v⟩ ∧ m.WellFormed := by
  have hv : ∀ v : Value, (Metric.mk name v).WellFormed ↔ isName name ∧ v.isFinite :=
    fun v => ⟨fun h => ⟨h.1, h.2⟩, fun h => ⟨h.1, h.2⟩⟩
  unfold withValue
  constructor
  · intro h
    split at h
    · next hn =>
      cases v with
      | counter n => cases h; exact ⟨rfl, hn, rfl⟩
      | gauge x =>
        simp only at h
        split at h
        · next hx => cases h; exact ⟨rfl, hn, hx⟩
        · simp at h
    · simp at h
  · rintro ⟨rfl, h⟩
    obtain ⟨hn, hf⟩ := (hv v).1 h
    cases v with
    | counter n => simp [hn]
    | gauge x => simp [hn, show x.isFinite = true from hf]

theorem wellFormed_of_fresh {k : Kind} {name : String} {m : Metric} (h : fresh k name = .ok m) :
    m.WellFormed := by
  obtain ⟨hn, rfl⟩ := fresh_eq_ok_iff.1 h
  refine ⟨hn, ?_⟩
  cases k with
  | counter => rfl
  | gauge => exact Binary64.isFinite_zero false

theorem fresh_of_parse {kind name : String} {m : Metric} (h : parse kind name = .ok m) :
    kind = m.kind.text ∧ m.name = name ∧ fresh m.kind m.name = .ok m := by
  unfold parse at h
  split at h
  · simp at h
  · next k hk =>
    obtain ⟨hn, rfl⟩ := fresh_eq_ok_iff.1 h
    have hkind : (Metric.mk name (.zero k)).kind = k := Value.kind_zero k
    rw [hkind]
    exact ⟨Kind.text_of_ofText? hk, rfl, h⟩

theorem isFinite_nextValue? {i : Input} {v w : Value} (h : nextValue? i v = some w) :
    w.isFinite := by
  cases v with
  | counter n =>
    obtain ⟨_, -, rfl⟩ := Option.map_eq_some_iff.1 h
    rfl
  | gauge x =>
    obtain ⟨y, hy, rfl⟩ := Option.map_eq_some_iff.1 h
    exact Input.isFinite_of_reading? hy

theorem update_eq_ok_iff {m m' : Metric} {i : Input} :
    m.update i = .ok m' ↔ m'.name = m.name ∧ nextValue? i m.value = some m'.value := by
  obtain ⟨name', v'⟩ := m'
  unfold update
  split
  · next v hv => simp [hv, eq_comm]
  · next hv => simp [hv]

theorem WellFormed.update {m m' : Metric} {i : Input} (h : m.WellFormed)
    (hu : m.update i = .ok m') : m'.WellFormed := by
  obtain ⟨hn, hv⟩ := update_eq_ok_iff.1 hu
  exact ⟨hn ▸ h.name, isFinite_nextValue? hv⟩

/-- The metrics that constructors and updates lead to. -/
inductive Reachable : Metric → Prop
  | fresh {k : Kind} {name : String} {m : Metric} (h : Metric.fresh k name = .ok m) : Reachable m
  | parse {kind name : String} {m : Metric} (h : Metric.parse kind name = .ok m) : Reachable m
  | withValue {name : String} {v : Value} {m : Metric} (h : Metric.withValue name v = .ok m) :
      Reachable m
  | update {m m' : Metric} {i : Input} (hm : Reachable m) (h : m.update i = .ok m') : Reachable m'

theorem Reachable.wellFormed {m : Metric} (h : m.Reachable) : m.WellFormed := by
  induction h with
  | fresh h => exact wellFormed_of_fresh h
  | parse h => exact wellFormed_of_fresh (fresh_of_parse h).2.2
  | withValue h => exact (withValue_eq_ok_iff.1 h).2
  | update _ h ih => exact ih.update h

def dropZeroSign (m : Metric) : Metric := { m with value := m.value.dropZeroSign }

def numEq (a b : Metric) : Bool := a.name == b.name && a.value.numEq b.value

@[simp] theorem name_dropZeroSign (m : Metric) : m.dropZeroSign.name = m.name := rfl

@[simp] theorem kind_dropZeroSign (m : Metric) : m.dropZeroSign.kind = m.kind := by
  simp [dropZeroSign, kind]

@[simp] theorem dropZeroSign_dropZeroSign (m : Metric) :
    m.dropZeroSign.dropZeroSign = m.dropZeroSign := by
  obtain ⟨name, v⟩ := m
  cases v <;> simp [dropZeroSign, Value.dropZeroSign]

theorem WellFormed.dropZeroSign {m : Metric} (h : m.WellFormed) : m.dropZeroSign.WellFormed := by
  refine ⟨h.name, ?_⟩
  obtain ⟨name, v⟩ := m
  cases v with
  | counter n => rfl
  | gauge x => exact (Binary64.isFinite_dropZeroSign x).trans h.finite

theorem numEq_of_dropZeroSign_eq {a b : Metric} (ha : a.WellFormed) (hb : b.WellFormed)
    (h : a.dropZeroSign = b.dropZeroSign) : a.numEq b := by
  have hn : a.dropZeroSign.name = b.dropZeroSign.name := congrArg Metric.name h
  have hv : a.dropZeroSign.value = b.dropZeroSign.value := congrArg Metric.value h
  rw [name_dropZeroSign, name_dropZeroSign] at hn
  simp [numEq, hn, Value.numEq_of_dropZeroSign_eq ha.finite hb.finite hv]

end Metric
end Telemetry
