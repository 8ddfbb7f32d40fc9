import Telemetry.Metric.Report
import Telemetry.Proofs.Store.Totals
import Telemetry.Proofs.Traversal

/-!
The reports that stand for metrics. A report has to fill the one field of its kind, its id has to be a
name and a reading has to be finite; what is told of another report is the first of these that fails.
-/
namespace Telemetry

theorem Metric.nextValue?_ofValue (v : Value) :
    nextValue? (.ofValue v) (.zero v.kind) = if v.isFinite then some v else none := by
  cases v with
  | counter n =>
    have hadd : checkedAdd 0 n = some n := Text.int64?_eq_some_iff.2 (Int.zero_add _).symm
    simp [nextValue?, Input.ofValue, Input.delta?, Value.kind, Value.zero, Value.isFinite, hadd]
  | gauge x =>
    by_cases hx : x.isFinite
    · simp [nextValue?, Input.ofValue, Input.reading?, Input.number?, Value.kind, Value.zero,
        Value.isFinite, hx]
    · simp [nextValue?, Input.ofValue, Input.reading?, Input.number?, Value.kind, Value.zero,
        Value.isFinite, hx]

theorem Input.display_ofValue (v : Value) : (Input.ofValue v).display = v.text := by
  cases v <;> rfl

namespace Metric

theorem update_ofValue (name : String) (v : Value) : (Metric.mk name (.zero v.kind)).update (.ofValue v) =
    if v.isFinite then .ok ⟨name, v⟩ else .error (.invalidValue v.kind v.text) := by
  rw [update, nextValue?_ofValue]
  by_cases hv : v.isFinite
  · simp [hv]
  · simp [hv, kind, Input.display_ofValue]

theorem withValue_eq (name : String) (v : Value) : withValue name v =
    if isName name then (Metric.mk name (.zero v.kind)).update (.ofValue v)
    else .error (.invalidName name) := by
  rw [update_ofValue]
  cases v <;> rfl

end Metric

namespace Report
variable {r : Report} {m : Metric} {v : Value} {e : ReportError}

/-- The value in the one filled field, if this is the field of the kind. -/
def carried? (r : Report) : Option Value :=
  match r.kind, r.delta, r.value with
  | .counter, some n, none => some (.counter n)
  | .gauge, none, some x => some (.gauge x)
  | _, _, _ => none

theorem kind_of_carried? (h : r.carried? = some v) : v.kind = r.kind := by
  obtain ⟨id, kind, delta, value⟩ := r
  unfold carried? at h
  split at h <;> cases h <;> simp_all [Value.kind]

theorem input_eq (r : Report) : r.input =
    r.carried?.elim (.error (.malformed r.id r.kind)) fun v => .ok (.ofValue v) := by
  obtain ⟨id, kind, delta, value⟩ := r
  rcases kind <;> rcases delta <;> rcases value <;> rfl

theorem toMetric_eq (r : Report) : r.toMetric =
    r.carried?.elim (.error (.malformed r.id r.kind)) fun v =>
      (Metric.withValue r.id v).mapError .metric := by
  rw [toMetric, input_eq]
  cases hv : r.carried? with
  | none => rfl
  | some v =>
    rw [← kind_of_carried? hv]
    by_cases hname : isName r.id
    · have hfresh : Metric.fresh v.kind r.id = .ok ⟨r.id, .zero v.kind⟩ :=
        Metric.fresh_eq_ok_iff.2 ⟨hname, rfl⟩
      simp only [Option.elim_some, hfresh, Except.bind, Metric.withValue_eq, hname, if_true]
      cases (Metric.mk r.id (.zero v.kind)).update (.ofValue v) <;> rfl
    · simp [Metric.fresh, hname, Except.bind, Metric.withValue_eq, Except.mapError]

structure WellFormed (r : Report) : Prop where
  carried : ∃ v, r.carried? = some v ∧ v.isFinite
  name : isName r.id

/-- The first thing that is wrong with a report. -/
def defect (r : Report) : ReportError :=
  match r.carried? with
  | none => .malformed r.id r.kind
  | some v => .metric (if isName r.id then .invalidValue v.kind v.text else .invalidName r.id)

theorem toMetric_eq_ok_iff :
    r.toMetric = .ok m ↔ r.carried? = some m.value ∧ m.name = r.id ∧ m.WellFormed := by
  rw [toMetric_eq]
  cases hv : r.carried? with
  | none => simp
  | some v =>
    cases hm : Metric.withValue r.id v with
    | error e =>
      simp only [Option.elim_some, hm, Except.mapError, reduceCtorEq, Option.some.injEq, false_iff]
      rintro ⟨rfl, hname, hwf⟩
      have hok : Metric.withValue r.id m.value = .ok m :=
        Metric.withValue_eq_ok_iff.2 ⟨by rw [← hname], hwf⟩
      simp [hok] at hm
    | ok a =>
      obtain ⟨rfl, hwf⟩ := Metric.withValue_eq_ok_iff.1 hm
      simp only [Option.elim_some, hm, Except.mapError, Except.ok.injEq, Option.some.injEq]
      constructor
      · rintro rfl
        exact ⟨rfl, rfl, hwf⟩
      · rintro ⟨rfl, hname, -⟩
        rw [← hname]

theorem exists_toMetric (h : r.WellFormed) : ∃ m, r.toMetric = .ok m := by
  obtain ⟨⟨v, hv, hfinite⟩, hname⟩ := h
  exact ⟨⟨r.id, v⟩, toMetric_eq_ok_iff.2 ⟨hv, rfl, hname, hfinite⟩⟩

theorem toMetric_of_not_wellFormed (h : ¬ r.WellFormed) : r.toMetric = .error r.defect := by
  rw [toMetric_eq, defect]
  cases hv : r.carried? with
  | none => rfl
  | some v =>
    by_cases hname : isName r.id
    · have hfinite : v.isFinite = false :=
        Bool.eq_false_iff.2 fun hfinite => h ⟨⟨v, hv, hfinite⟩, hname⟩
      simp [Metric.withValue_eq, hname, Metric.update_ofValue, hfinite, Except.mapError]
    · simp [Metric.withValue_eq, hname, Except.mapError]

theorem toMetric_ofMetric (h : m.WellFormed) : (ofMetric m).toMetric = .ok m := by
  refine toMetric_eq_ok_iff.2 ⟨?_, rfl, h⟩
  obtain ⟨name, v⟩ := m
  cases v <;> rfl

theorem mapM_toMetric_ofMetric {ms : List Metric} (h : ∀ m ∈ ms, m.WellFormed) :
    (ms.map ofMetric).mapM toMetric = .ok ms :=
  mapM_map_eq_self fun m hm => toMetric_ofMetric (h m hm)

theorem mapM_ofRecord_toRecord (rs : List Report) : (rs.map toRecord).mapM ofRecord = .ok rs :=
  mapM_map_eq_self fun r _ => ofRecord_toRecord r

theorem input_ofMetric (m : Metric) : (ofMetric m).input = .ok (.ofValue m.value) := by
  obtain ⟨name, v⟩ := m
  cases v <;> rfl

theorem wellFormed_of_mapM_toMetric {rs : List Report} {ms : List Metric}
    (h : rs.mapM toMetric = .ok ms) : ∀ m ∈ ms, m.WellFormed := by
  induction rs generalizing ms with
  | nil =>
    cases h
    simp
  | cons r rs ih =>
    rw [List.mapM_cons] at h
    cases hr : r.toMetric with
    | error e => simp [hr, bind, Except.bind] at h
    | ok m =>
      cases hrest : rs.mapM toMetric with
      | error e => simp [hr, hrest, bind, Except.bind] at h
      | ok ms' =>
        obtain rfl : m :: ms' = ms := by simpa [hr, hrest, bind, Except.bind, pure, Except.pure] using h
        exact List.forall_mem_cons.2 ⟨(toMetric_eq_ok_iff.1 hr).2.2, ih hrest⟩

theorem mapM_toMetric_of_not_wellFormed {before : List Report}
    (hbefore : ∀ a ∈ before, a.WellFormed) (hr : ¬ r.WellFormed) (after : List Report) :
    (before ++ r :: after).mapM toMetric = .error r.defect := by
  induction before with
  | nil => simp [List.mapM_cons, toMetric_of_not_wellFormed hr, bind, Except.bind]
  | cons a before ih =>
    obtain ⟨ha, hrest⟩ := List.forall_mem_cons.1 hbefore
    obtain ⟨m, hm⟩ := exists_toMetric ha
    simp [List.mapM_cons, hm, ih hrest, bind, Except.bind]

end Report
end Telemetry
