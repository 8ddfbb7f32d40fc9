import Telemetry.Proofs.Store.LedgerOrder

/-!
What the operations on a ledger do. A ledger is valid if its keys increase and its metrics are
well-formed; every operation keeps it so. The items that a batch applies are named, so that what
happens to the others can be stated.
-/
namespace Telemetry
namespace Ledger

/-- The ledgers that operations lead to. -/
structure Valid (l : Ledger) : Prop where
  sorted : l.Sorted
  wellFormed : ∀ m ∈ l, m.WellFormed

theorem Valid.nil : Valid [] := ⟨List.Pairwise.nil, by simp⟩

theorem Valid.put {l : Ledger} (h : l.Valid) {m : Metric} (hm : m.WellFormed) :
    (l.put m).Valid := by
  refine ⟨h.sorted.put m, ?_⟩
  intro a ha
  rcases mem_of_mem_put ha with rfl | ha
  · exact hm
  · exact h.wellFormed a ha

theorem Valid.nodup_keys {l : Ledger} (h : l.Valid) : (l.map Metric.key).Nodup := by
  rw [List.Nodup, List.pairwise_map]
  exact h.sorted.imp Key.ne_of_lt

theorem Valid.of_find? {l : Ledger} (h : l.Valid) {key : Key} {m : Metric}
    (hm : l.find? key = some m) : m.WellFormed := h.wellFormed m (mem_of_find? hm)

/-- The metric that an upsert starts from: the one with the key, or a fresh one. -/
def current (key : Key) (l : Ledger) : Except MetricError Metric :=
  match l.find? key with
  | some m => .ok m
  | none => Metric.fresh key.kind key.name

section Single
variable {l : Ledger} {key : Key} {m : Metric}

theorem add_of_some {a : Metric} (h : l.find? m.key = some a) :
    l.add m = (.error (.alreadyExists m.key), l) := by simp [add, h]

theorem add_of_none (h : l.find? m.key = none) : l.add m = (.ok (), l.put m) := by
  simp [add, h]

theorem update_of_none (h : l.find? key = none) (i : Input) :
    l.update key i = (.error (.notFound key), l) := by simp [update, h]

theorem update_of_ok {m' : Metric} {i : Input} (h : l.find? key = some m)
    (hu : m.update i = .ok m') : l.update key i = (.ok m', l.put m') := by simp [update, h, hu]

theorem update_of_error {i : Input} {e : MetricError} (h : l.find? key = some m)
    (hu : m.update i = .error e) : l.update key i = (.error (.metric e), l) := by
  simp [update, h, hu]

theorem apply_eq (key : Key) (i : Input) (l : Ledger) :
    l.apply key i = (l.current key).bind fun a => (a.update i).map fun m => (m, l.put m) := by
  simp only [apply, current, bind, Except.bind]
  cases l.find? key with
  | some a => cases h : a.update i <;> simp [h, Except.map]
  | none => rfl

theorem current_of_some (h : l.find? key = some m) : l.current key = .ok m := by
  simp [current, h]

theorem current_of_none (h : l.find? key = none) :
    l.current key = Metric.fresh key.kind key.name := by simp [current, h]

theorem exists_current (h : isName key.name) (l : Ledger) : ∃ m, l.current key = .ok m := by
  cases hf : l.find? key with
  | some m => exact ⟨m, current_of_some hf⟩
  | none => exact ⟨_, (current_of_none hf).trans (Metric.fresh_eq_ok_iff.2 ⟨h, rfl⟩)⟩

theorem key_of_current (h : l.current key = .ok m) : m.key = key := by
  cases hf : l.find? key with
  | some a =>
    rw [current_of_some hf] at h
    cases h
    exact key_of_find? hf
  | none => exact Metric.key_of_fresh ((current_of_none hf).symm.trans h)

theorem apply_of_ok {a : Metric} {i : Input} (h : l.current key = .ok a)
    (hu : a.update i = .ok m) : l.apply key i = .ok (m, l.put m) := by
  simp [apply_eq, h, hu, Except.bind, Except.map]

theorem apply_of_error {a : Metric} {i : Input} {e : MetricError} (h : l.current key = .ok a)
    (hu : a.update i = .error e) : l.apply key i = .error e := by
  simp [apply_eq, h, hu, Except.bind, Except.map]

theorem update_eq_error_of_apply {a : Metric} {i : Input} {e : MetricError}
    (h : l.current key = .ok a) (ha : l.apply key i = .error e) : a.update i = .error e := by
  cases hu : a.update i with
  | ok m => simp [apply_of_ok h hu] at ha
  | error e' => simpa [apply_of_error h hu] using ha

theorem apply_eq_ok {i : Input} {l' : Ledger} (h : l.apply key i = .ok (m, l')) :
    ∃ a, l.current key = .ok a ∧ a.update i = .ok m ∧ m.key = key ∧ l' = l.put m := by
  cases hc : l.current key with
  | error e => simp [apply_eq, hc, Except.bind] at h
  | ok a =>
    cases hu : a.update i with
    | error e => simp [apply_of_error hc hu] at h
    | ok b =>
      rw [apply_of_ok hc hu] at h
      cases h
      exact ⟨a, rfl, hu, (Metric.key_update hu).trans (key_of_current hc), rfl⟩

theorem Valid.of_current (h : l.Valid) (hc : l.current key = .ok m) : m.WellFormed := by
  cases hf : l.find? key with
  | some a =>
    rw [current_of_some hf] at hc
    cases hc
    exact h.of_find? hf
  | none => exact Metric.wellFormed_of_fresh ((current_of_none hf).symm.trans hc)

theorem Valid.current_of_not_isName (h : l.Valid) (hname : isName key.name = false) :
    l.current key = .error (.invalidName key.name) := by
  cases hf : l.find? key with
  | some m =>
    have hvalid := (h.of_find? hf).name
    have hkey : m.name = key.name := congrArg Key.name (key_of_find? hf)
    rw [hkey, hname] at hvalid
    cases hvalid
  | none => rw [current_of_none hf, Metric.fresh, hname, if_neg (by decide)]

theorem Valid.add (h : l.Valid) (hm : m.WellFormed) : (l.add m).2.Valid := by
  cases hf : l.find? m.key with
  | some a => rw [add_of_some hf]; exact h
  | none => rw [add_of_none hf]; exact h.put hm

theorem Valid.update (h : l.Valid) (key : Key) (i : Input) : (l.update key i).2.Valid := by
  cases hf : l.find? key with
  | none => rw [update_of_none hf]; exact h
  | some m =>
    cases hu : m.update i with
    | ok m' => rw [update_of_ok hf hu]; exact h.put ((h.of_find? hf).update hu)
    | error e => rw [update_of_error hf hu]; exact h

theorem Valid.apply {i : Input} {l' : Ledger} (h : l.Valid) (ha : l.apply key i = .ok (m, l')) :
    m.WellFormed ∧ l'.Valid := by
  obtain ⟨a, hc, hu, -, rfl⟩ := apply_eq_ok ha
  have hm : m.WellFormed := (h.of_current hc).update hu
  exact ⟨hm, h.put hm⟩

end Single

/-- The items of a batch that can be applied, one after another. -/
def accepted : List Metric → Ledger → List Metric
  | [], _ => []
  | item :: items, l =>
    match l.upsert item with
    | .ok (_, l') => item :: accepted items l'
    | .error _ => accepted items l

section Batch
variable {l l' : Ledger} {item m : Metric}

theorem accepted_sublist (items : List Metric) (l : Ledger) : (accepted items l).Sublist items := by
  induction items generalizing l with
  | nil => exact List.Sublist.slnil
  | cons item items ih =>
    simp only [accepted]
    split
    · exact (ih _).cons_cons item
    · exact (ih l).cons item

theorem accepted_cons_eq {items : List Metric} (h : l.accepted (item :: items) = item :: items) :
    ∃ m l', l.upsert item = .ok (m, l') ∧ l'.accepted items = items := by
  cases hu : l.upsert item with
  | ok r =>
    simp only [accepted, hu, List.cons.injEq, true_and] at h
    exact ⟨r.1, r.2, rfl, h⟩
  | error e =>
    simp only [accepted, hu] at h
    have hlen := (accepted_sublist items l).length_le
    rw [h, List.length_cons] at hlen
    omega

theorem applyAll_cons_ok (h : l.upsert item = .ok (m, l')) (items : List Metric) :
    applyAll (item :: items) l = (m :: (applyAll items l').1, (applyAll items l').2) := by
  simp [applyAll, h]

theorem applyAll_cons_error {e : MetricError} (h : l.upsert item = .error e)
    (items : List Metric) : applyAll (item :: items) l = applyAll items l := by
  simp [applyAll, h]

theorem find?_applyAll_isSome {key : Key} (items : List Metric) (h : (l.find? key).isSome) :
    ((Ledger.applyAll items l).2.find? key).isSome := by
  induction items generalizing l with
  | nil => exact h
  | cons item items ih =>
    cases hu : l.upsert item with
    | error e => rw [applyAll_cons_error hu]; exact ih h
    | ok r =>
      obtain ⟨-, -, -, -, hput⟩ := apply_eq_ok hu
      rw [applyAll_cons_ok hu]
      exact ih (hput ▸ find?_put_isSome r.1 h)

theorem Valid.applyAll (items : List Metric) (h : l.Valid) :
    (∀ m ∈ (applyAll items l).1, m.WellFormed) ∧ (applyAll items l).2.Valid := by
  induction items generalizing l with
  | nil => exact ⟨by simp [Ledger.applyAll], h⟩
  | cons item items ih =>
    cases hu : l.upsert item with
    | error e => rw [applyAll_cons_error hu]; exact ih h
    | ok r =>
      obtain ⟨hm, hl⟩ := h.apply hu
      rw [applyAll_cons_ok hu]
      exact ⟨List.forall_mem_cons.2 ⟨hm, (ih hl).1⟩, (ih hl).2⟩

theorem Valid.foldl_put (h : l.Valid) {ms : List Metric} (hms : ∀ m ∈ ms, m.WellFormed) :
    (ms.foldl (fun l m => l.put m) l).Valid := by
  induction ms generalizing l with
  | nil => exact h
  | cons m ms ih =>
    have hms' := List.forall_mem_cons.1 hms
    exact ih (h.put hms'.1) hms'.2

theorem Valid.loadIntoEmpty (h : l.Valid) {ms : List Metric} (hms : ∀ m ∈ ms, m.WellFormed) :
    (l.loadIntoEmpty ms).2.Valid := by
  unfold Ledger.loadIntoEmpty
  split
  · exact h.foldl_put hms
  · exact h

end Batch
end Ledger
end Telemetry
