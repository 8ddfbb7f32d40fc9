import Telemetry.Proofs.Store.LedgerSteps
import Telemetry.Store.Table

/-!
A table that is only used through its operations consists of the rows of a valid ledger's metrics, in
the ledger's order. Every operation on such a table is the operation on the ledger: the same refusals,
the same results without the sign of zero, and again the rows of the ledger that is left behind.
-/
namespace Telemetry

theorem Kind.text_inj {a b : Kind} : a.text = b.text ↔ a = b := by
  cases a <;> cases b <;> decide

theorem Kind.text_lt_text {a b : Kind} : a.text < b.text ↔ a.rank < b.rank := by
  cases a <;> cases b <;> decide

namespace Metric

/-- The sign of zero plays no part in an update. -/
theorem update_dropZeroSign (m : Metric) (i : Input) : m.dropZeroSign.update i = m.update i := by
  obtain ⟨name, v⟩ := m
  cases v <;> rfl

end Metric

namespace Row

theorem hasKey_ofMetric (m : Metric) (key : Key) :
    (ofMetric m).hasKey key.kind.text key.name = decide (m.key = key) := by
  obtain ⟨kind, name⟩ := key
  apply Bool.eq_iff_iff.2
  simp [hasKey, ofMetric, Kind.text_inj, Metric.key]

theorem lt_iff {a b : Row} : a.lt b ↔ a.type < b.type ∨ a.type = b.type ∧ a.name < b.name := by
  simp [lt]

theorem lt_ofMetric (a b : Metric) : (ofMetric a).lt (ofMetric b) = a.key.lt b.key := by
  apply Bool.eq_iff_iff.2
  rw [lt_iff, Key.lt_iff]
  exact or_congr Kind.text_lt_text (and_congr_left' Kind.text_inj)

theorem stored?_of_isFinite {x : Binary64} (h : x.isFinite) : stored? x = some x.dropZeroSign := by
  simp [stored?, Binary64.isNaN_eq_false h]

theorem toMetric_ofMetric {m : Metric} (h : m.WellFormed) :
    (ofMetric m).toMetric = .ok m.dropZeroSign := by
  have hbuild : Metric.withValue m.name m.value.dropZeroSign = .ok m.dropZeroSign :=
    Metric.withValue_eq_ok_iff.2 ⟨rfl, h.dropZeroSign⟩
  obtain ⟨name, v⟩ := m
  cases v with
  | counter n =>
    change Metric.withValue name (.counter n) = _ at hbuild
    simp [toMetric, ofMetric, Metric.kind, Value.kind, Value.counter?, hbuild]
  | gauge x =>
    change Metric.withValue name (.gauge x.dropZeroSign) = _ at hbuild
    have hx : stored? x = some x.dropZeroSign := stored?_of_isFinite h.finite
    simp [toMetric, ofMetric, Metric.kind, Value.kind, Value.gauge?, hx, hbuild]

end Row

namespace Table

theorem statement?_of_update {m m' : Metric} {i : Input} (h : m.update i = .ok m') :
    ∃ f, statement? m.kind i = some f ∧ f (.ofMetric m) = .ofMetric m' := by
  obtain ⟨hname, hvalue⟩ := Metric.update_eq_ok_iff.1 h
  obtain ⟨name, v⟩ := m
  obtain ⟨name', v'⟩ := m'
  obtain rfl : name' = name := hname
  cases v with
  | counter n =>
    obtain ⟨total, htotal, rfl⟩ := Option.map_eq_some_iff.1 hvalue
    obtain ⟨delta, hdelta, hsum⟩ := Option.bind_eq_some_iff.1 htotal
    refine ⟨Row.increment delta, by simp [statement?, Metric.kind, Value.kind, hdelta], ?_⟩
    simp [Row.increment, Row.ofMetric, Metric.kind, Value.kind, Value.counter?, Value.gauge?, hsum]
  | gauge x =>
    obtain ⟨y, hy, rfl⟩ := Option.map_eq_some_iff.1 hvalue
    refine ⟨Row.assign y, by simp [statement?, Metric.kind, Value.kind, hy], ?_⟩
    simp [Row.assign, Row.ofMetric, Metric.kind, Value.kind, Value.counter?, Value.gauge?]

theorem upsertAll_cons_ok {item m : Metric} {t t' : Table} (h : t.upsert item = (.ok m, t'))
    (items : List Metric) :
    (t.upsertAll (item :: items)).1 = (t'.upsertAll items).1.map (m :: ·) := by
  simp only [upsertAll, h]
  cases (t'.upsertAll items) with
  | mk answer t'' => cases answer <;> rfl

theorem upsertAll_cons_error {item : Metric} {t : Table} {e : StoreError}
    (h : (t.upsert item).1 = .error e) (items : List Metric) :
    (t.upsertAll (item :: items)).1 = .error e := by
  cases hu : t.upsert item with
  | mk answer t' =>
    obtain rfl : answer = .error e := by simpa [hu] using h
    simp [upsertAll, hu]

theorem transaction_of_error {α : Type} {steps : Table → Except StoreError α × Table} {t : Table}
    {e : StoreError} (h : (steps t).1 = .error e) : transaction steps t = (.error e, t) := by
  cases hs : steps t with
  | mk answer t' =>
    obtain rfl : answer = .error e := by simpa [hs] using h
    simp [transaction, hs]

end Table

namespace Ledger

/-- The rows of the metrics of a ledger. -/
def image (l : Ledger) : Table := l.map Row.ofMetric

theorem find?_image (l : Ledger) (key : Key) :
    l.image.find? key = (l.find? key).map Row.ofMetric := by
  induction l with
  | nil => rfl
  | cons a l ih =>
    simp only [Table.find?, image, find?] at ih ⊢
    simp only [List.map_cons, List.find?_cons, Row.hasKey_ofMetric]
    split
    · rfl
    · exact ih

theorem put_image (m : Metric) (l : Ledger) : l.image.put (.ofMetric m) = (l.put m).image := by
  induction l with
  | nil => rfl
  | cons a l ih =>
    have hkey : (Row.ofMetric a).hasKey (Row.ofMetric m).type (Row.ofMetric m).name =
        decide (a.key = m.key) := Row.hasKey_ofMetric a m.key
    simp only [image, List.map_cons, Table.put, hkey, Row.lt_ofMetric, put] at ih ⊢
    by_cases heq : a.key = m.key
    · simp [heq]
    · by_cases hlt : m.key.lt a.key
      · simp [heq, hlt]
      · simp [heq, hlt, ih]

theorem change_image {l : Ledger} (h : l.Sorted) {a m : Metric} (ha : a ∈ l) (hk : a.key = m.key)
    {f : Row → Row} (hf : f (.ofMetric a) = .ofMetric m) :
    (l.image.change m.key f).1 ≠ 0 ∧ (l.image.change m.key f).2 = (l.put m).image := by
  constructor
  · have hpos : 0 < (l.image.change m.key f).1 := by
      refine List.countP_pos_iff.2 ⟨.ofMetric a, List.mem_map_of_mem ha, ?_⟩
      simp [Row.hasKey_ofMetric, hk]
    omega
  · rw [h.put_eq_map ha hk]
    simp only [Table.change, image, List.map_map]
    refine List.map_congr_left fun b hb => ?_
    simp only [Function.comp_apply, Row.hasKey_ofMetric, decide_eq_true_eq]
    split
    · next hbk =>
      have hab : b = a := Option.some.inj
        ((h.find?_eq_some_iff.2 ⟨hb, hbk⟩).symm.trans (h.find?_eq_some_iff.2 ⟨ha, hk⟩))
      rw [hab, hf]
    · rfl

section
variable {l : Ledger}

theorem insert_image (m : Metric) (l : Ledger) :
    l.image.insert m = Prod.map id image (l.add m) := by
  cases hf : l.find? m.key with
  | some a => simp [Table.insert, find?_image, hf, add_of_some hf]
  | none => simp [Table.insert, find?_image, hf, add_of_none hf, put_image]

/-- If the metric of a row takes an update, the database takes the statement, and the row that is read again
is that of the next metric. -/
theorem statement_image (h : l.Valid) {key : Key} {m m' : Metric} {i : Input}
    (hf : l.find? key = some m) (hu : m.update i = .ok m') :
    ∃ f, Table.statement? key.kind i = some f ∧ (l.image.change key f).1 ≠ 0 ∧
      (l.image.change key f).2 = (l.put m').image ∧ (l.put m').find? key = some m' := by
  have hkey : m.key = key := key_of_find? hf
  obtain rfl : m'.key = key := (Metric.key_update hu).trans hkey
  obtain ⟨f, hst, hrow⟩ := Table.statement?_of_update hu
  obtain ⟨hcount, hchange⟩ := change_image h.sorted (mem_of_find? hf) hkey hrow
  have hkind : m'.key.kind = m.kind := congrArg Key.kind hkey.symm
  exact ⟨f, hkind ▸ hst, hcount, hchange, find?_put_self m' l⟩

theorem applyUpdate_image (h : l.Valid) (key : Key) (i : Input) :
    l.image.applyUpdate key i =
      Prod.map (Except.map Metric.dropZeroSign) image (l.update key i) := by
  cases hf : l.find? key with
  | none => simp [Table.applyUpdate, find?_image, hf, update_of_none hf, Except.map]
  | some m =>
    have hm : m.WellFormed := h.of_find? hf
    have hread := Row.toMetric_ofMetric hm
    cases hu : m.update i with
    | error e =>
      simp [Table.applyUpdate, find?_image, hf, hread, Metric.update_dropZeroSign, hu,
        update_of_error hf hu, Except.map]
    | ok m' =>
      obtain ⟨f, hst, hcount, hchange, hagain⟩ := statement_image h hf hu
      simp [Table.applyUpdate, find?_image, hf, hread, Metric.update_dropZeroSign, hu,
        update_of_ok hf hu, hst, hcount, hchange, hagain, Row.toMetric_ofMetric (hm.update hu),
        Except.map]

theorem update_image (h : l.Valid) (key : Key) (i : Input) :
    l.image.update key i = Prod.map (Except.map Metric.dropZeroSign) image (l.update key i) := by
  simp only [Table.update, Table.transaction, applyUpdate_image h]
  cases hf : l.find? key with
  | none => simp [update_of_none hf, Except.map]
  | some m =>
    cases hu : m.update i with
    | error e => simp [update_of_error hf hu, Except.map]
    | ok m' => simp [update_of_ok hf hu, Except.map]

theorem retrieve_image (h : l.Valid) (key : Key) :
    l.image.retrieve key = (l.retrieve key).map Metric.dropZeroSign := by
  cases hf : l.find? key with
  | none => simp [Table.retrieve, find?_image, retrieve, hf, Except.map]
  | some m =>
    simp [Table.retrieve, find?_image, retrieve, hf, Except.map,
      Row.toMetric_ofMetric (h.of_find? hf)]

theorem all_image (h : ∀ m ∈ l, m.WellFormed) :
    l.image.all = .ok (l.map Metric.dropZeroSign) := by
  induction l with
  | nil => rfl
  | cons m l ih =>
    have hm := List.forall_mem_cons.1 h
    have ih := ih hm.2
    simp only [Table.all, image] at ih ⊢
    simp [List.mapM_cons, Row.toMetric_ofMetric hm.1, ih, bind, Except.bind, pure, Except.pure]

theorem upsert_image (h : l.Valid) {item a : Metric} (hc : l.current item.key = .ok a) :
    l.image.upsert item = Prod.map (Except.map Metric.dropZeroSign) image
      ((l.put a).update item.key (.ofValue item.value)) := by
  have hvalid : (l.put a).Valid := h.put (h.of_current hc)
  have ha : a.key = item.key := key_of_current hc
  rw [← applyUpdate_image hvalid]
  cases hf : l.find? item.key with
  | some b =>
    have hb : b = a := Except.ok.inj ((current_of_some hf).symm.trans hc)
    subst hb
    rw [h.sorted.put_of_find? (ha.symm ▸ hf)]
    simp [Table.upsert, find?_image, hf]
  | none =>
    have hfresh : Metric.fresh item.kind item.name = .ok a := (current_of_none hf).symm.trans hc
    have hadd : l.add a = (.ok (), l.put a) := add_of_none (ha.symm ▸ hf)
    simp [Table.upsert, find?_image, hf, hfresh, insert_image, hadd]

theorem upsert_image_ok (h : l.Valid) {item m : Metric} {l' : Ledger}
    (hu : l.upsert item = .ok (m, l')) : l.image.upsert item = (.ok m.dropZeroSign, l'.image) := by
  obtain ⟨a, hc, hstep, hkey, rfl⟩ := apply_eq_ok hu
  have ha : a.key = item.key := key_of_current hc
  have hup := update_of_ok (ha ▸ find?_put_self a l) hstep
  rw [put_put (ha.trans hkey.symm)] at hup
  simp [upsert_image h hc, hup, Except.map]

theorem upsert_image_error (h : l.Valid) {item : Metric} (hitem : item.WellFormed)
    {e : MetricError} (hu : l.upsert item = .error e) :
    (l.image.upsert item).1 = .error (.metric e) := by
  obtain ⟨a, hc⟩ : ∃ a, l.current item.key = .ok a := exists_current hitem.name l
  have hfound : (l.put a).find? item.key = some a := key_of_current hc ▸ find?_put_self a l
  have hstep := update_eq_error_of_apply hc hu
  simp [upsert_image h hc, update_of_error hfound hstep, Except.map]

theorem upsertAll_image_ok (h : l.Valid) {items : List Metric} (hall : l.accepted items = items) :
    l.image.upsertAll items =
      (.ok ((applyAll items l).1.map Metric.dropZeroSign), (applyAll items l).2.image) := by
  induction items generalizing l with
  | nil => rfl
  | cons item items ih =>
    obtain ⟨m, l', hu, hrest⟩ := accepted_cons_eq hall
    have hvalid : l'.Valid := (h.apply hu).2
    simp [Table.upsertAll, upsert_image_ok h hu, ih hvalid hrest, applyAll_cons_ok hu]

theorem upsertAll_image_error (h : l.Valid) {items : List Metric}
    (hitems : ∀ item ∈ items, item.WellFormed) (hsome : l.accepted items ≠ items) :
    ∃ e, (l.image.upsertAll items).1 = .error (.metric e) := by
  induction items generalizing l with
  | nil => exact absurd rfl hsome
  | cons item items ih =>
    have hitem := List.forall_mem_cons.1 hitems
    cases hu : l.upsert item with
    | error e => exact ⟨e, Table.upsertAll_cons_error (upsert_image_error h hitem.1 hu) items⟩
    | ok r =>
      obtain ⟨m, l'⟩ := r
      have hrest : l'.accepted items ≠ items := fun heq => hsome (by simp [accepted, hu, heq])
      obtain ⟨e, he⟩ := ih (h.apply hu).2 hitem.2 hrest
      refine ⟨e, ?_⟩
      rw [Table.upsertAll_cons_ok (upsert_image_ok h hu), he]
      rfl

theorem updateBatch_image_ok (h : l.Valid) {items : List Metric}
    (hall : l.accepted items = items) :
    l.image.updateBatch items =
      (.ok ((applyAll items l).1.map Metric.dropZeroSign), (applyAll items l).2.image) := by
  simp [Table.updateBatch, Table.transaction, upsertAll_image_ok h hall]

theorem updateBatch_image_error (h : l.Valid) {items : List Metric}
    (hitems : ∀ item ∈ items, item.WellFormed) (hsome : l.accepted items ≠ items) :
    ∃ e, l.image.updateBatch items = (.error (.metric e), l.image) := by
  obtain ⟨e, he⟩ := upsertAll_image_error h hitems hsome
  exact ⟨e, Table.transaction_of_error he⟩

end
end Ledger
end Telemetry
