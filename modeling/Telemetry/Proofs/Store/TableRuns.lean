import Mathlib.Data.List.Nodup
import Telemetry.Proofs.Store.Totals

/-!
A table in use. Whatever operations are tried on a table that starts empty, and however attempts go wrong,
each row is that of a metric. So an update that a metric takes in memory is taken by the database, and both
come to the same.
-/
namespace Telemetry

namespace Row

/-- A row that is as it should be: its type is that of a kind, its name is a name, and exactly the column
for this type has a value. -/
inductive IsProper : Row → Prop
  | counter {name : String} (hname : isName name) (n : Int64) : IsProper ⟨"counter", name, some n, none⟩
  | gauge {name : String} (hname : isName name) {x : Binary64} (hx : x.isFinite) :
      IsProper ⟨"gauge", name, none, some x⟩

theorem isProper_ofMetric {m : Metric} (h : m.WellFormed) : (ofMetric m).IsProper := by
  obtain ⟨name, v⟩ := m
  cases v with
  | counter n => exact .counter h.name n
  | gauge x =>
    have hx : stored? x = some x.dropZeroSign := stored?_of_isFinite h.finite
    have hrow : ofMetric ⟨name, .gauge x⟩ = ⟨"gauge", name, none, some x.dropZeroSign⟩ := by
      simp [ofMetric, Metric.kind, Value.kind, Value.counter?, Value.gauge?, hx, Kind.text]
    rw [hrow]
    exact .gauge h.name ((Binary64.isFinite_dropZeroSign x).trans h.finite)

theorem IsProper.exists_toMetric {r : Row} (h : r.IsProper) :
    ∃ m, r.toMetric = .ok m ∧ m.kind.text = r.type ∧ m.name = r.name := by
  cases h with
  | @counter name hname n =>
    have hkind : Kind.ofText? "counter" = some .counter := rfl
    exact ⟨⟨name, .counter n⟩, by simp [toMetric, hkind, Metric.withValue, hname], rfl, rfl⟩
  | @gauge name hname x hx =>
    have hkind : Kind.ofText? "gauge" = some .gauge := rfl
    exact ⟨⟨name, .gauge x⟩, by simp [toMetric, hkind, Metric.withValue, hname, hx], rfl, rfl⟩

end Row

namespace Table

/-- Proper rows, no two with the same type and name. -/
structure IsProper (t : Table) : Prop where
  rows : ∀ r ∈ t, r.IsProper
  keys : (t.map fun r => (r.type, r.name)).Nodup

theorem IsProper.exists_all {t : Table} (h : t.IsProper) : ∃ ms, t.all = .ok ms := by
  obtain ⟨rows, -⟩ := h
  induction t with
  | nil => exact ⟨[], rfl⟩
  | cons r t ih =>
    obtain ⟨hr, hrest⟩ := List.forall_mem_cons.1 rows
    obtain ⟨m, hm, -, -⟩ := hr.exists_toMetric
    obtain ⟨ms, hms⟩ := ih hrest
    have hms : t.mapM Row.toMetric = .ok ms := hms
    exact ⟨m :: ms, by simp [all, List.mapM_cons, hm, hms, bind, Except.bind, pure, Except.pure]⟩

theorem IsProper.retrieve {t : Table} (h : t.IsProper) (key : Key) :
    (∃ m, t.retrieve key = .ok m ∧ m.key = key) ∨
      t.find? key = none ∧ t.retrieve key = .error (.notFound key) := by
  unfold Table.retrieve
  cases hf : t.find? key with
  | none => exact .inr ⟨rfl, rfl⟩
  | some r =>
    obtain ⟨m, hm, hkind, hname⟩ := (h.rows r (List.mem_of_find?_eq_some hf)).exists_toMetric
    obtain ⟨htype, hrest⟩ : r.type = key.kind.text ∧ r.name = key.name := by
      simpa [Row.hasKey] using List.find?_some hf
    refine .inl ⟨m, hm, ?_⟩
    have hk : m.kind = key.kind := Kind.text_inj.1 (hkind.trans htype)
    simp [Metric.key, hk, hname, hrest]

/-- An update of a row goes well on a table: it is refused only because there is no row or because the metric
of the row refuses the input, and otherwise the database does what the metric does. -/
structure Settles (t : Table) (key : Key) (i : Input) : Prop where
  read : ∀ row, t.find? key = some row → ∃ current, row.toMetric = .ok current ∧ current.key = key
  refused : ∀ e, (t.applyUpdate key i).1 = .error e →
    t.find? key = none ∧ e = .notFound key ∨
      ∃ row current e', t.find? key = some row ∧ row.toMetric = .ok current ∧
        current.update i = .error e' ∧ e = .metric e'
  done : ∀ row current next, t.find? key = some row → row.toMetric = .ok current →
    current.update i = .ok next → ∃ f again m, statement? key.kind i = some f ∧ (t.change key f).1 = 1 ∧
      (t.change key f).2.find? key = some again ∧ again.toMetric = .ok m ∧
      t.applyUpdate key i = (.ok m, (t.change key f).2) ∧ m = next.dropZeroSign ∧ m.numEq next
  /-- The sum that the database is asked for is a 64-bit integer. -/
  sum : ∀ row current next, t.find? key = some row → row.toMetric = .ok current →
    current.update i = .ok next → key.kind = .counter → ∃ n d, row.int = some n ∧ i.delta? = some d ∧
      Int64.minValue.toInt ≤ n.toInt + d.toInt ∧ n.toInt + d.toInt ≤ Int64.maxValue.toInt

end Table

namespace Ledger
variable {l : Ledger}

theorem Valid.isProper_image (h : l.Valid) : l.image.IsProper where
  rows := by
    intro r hr
    obtain ⟨m, hm, rfl⟩ := List.mem_map.1 hr
    exact Row.isProper_ofMetric (h.wellFormed m hm)
  keys := by
    have hinj : ∀ a b : Key, (a.kind.text, a.name) = (b.kind.text, b.name) → a = b := by
      rintro ⟨k, s⟩ ⟨k', s'⟩ heq
      obtain ⟨hkind, hname⟩ := Prod.mk.inj heq
      exact congrArg₂ Key.mk (Kind.text_inj.1 hkind) hname
    have hkeys := List.Nodup.map (f := fun key : Key => (key.kind.text, key.name))
      (fun a b heq => hinj a b heq) h.nodup_keys
    rw [List.map_map] at hkeys
    rw [image, List.map_map]
    exact hkeys

theorem Valid.change_image_fst (h : l.Valid) {key : Key} {m : Metric} (hf : l.find? key = some m)
    (f : Row → Row) : (l.image.change key f).1 = 1 := by
  obtain ⟨hm, rfl⟩ := h.sorted.find?_eq_some_iff.1 hf
  have hcount : (l.map Metric.key).count m.key = 1 :=
    List.count_eq_one_of_mem h.nodup_keys (List.mem_map_of_mem hm)
  rw [List.count, List.countP_map] at hcount
  rw [Table.change, image, List.countP_map, ← hcount]
  refine List.countP_congr fun a _ => ?_
  simp [Row.hasKey_ofMetric]

theorem Valid.settles_image (h : l.Valid) (key : Key) (i : Input) : l.image.Settles key i := by
  have hread : ∀ row current, l.image.find? key = some row → row.toMetric = .ok current →
      ∃ m, l.find? key = some m ∧ m.WellFormed ∧ row = .ofMetric m ∧ current = m.dropZeroSign := by
    intro row current hrow hcurrent
    rw [find?_image] at hrow
    obtain ⟨m, hf, rfl⟩ := Option.map_eq_some_iff.1 hrow
    have hm := h.of_find? hf
    rw [Row.toMetric_ofMetric hm] at hcurrent
    exact ⟨m, hf, hm, rfl, (Except.ok.inj hcurrent).symm⟩
  refine ⟨?_, ?_, ?_, ?_⟩
  · intro row hrow
    rw [find?_image] at hrow
    obtain ⟨m, hf, rfl⟩ := Option.map_eq_some_iff.1 hrow
    refine ⟨m.dropZeroSign, Row.toMetric_ofMetric (h.of_find? hf), ?_⟩
    exact (congrArg (Key.mk · m.name) m.kind_dropZeroSign).trans (key_of_find? hf)
  · intro e he
    rw [applyUpdate_image h] at he
    cases hf : l.find? key with
    | none =>
      rw [update_of_none hf] at he
      exact .inl ⟨by rw [find?_image, hf]; rfl, (Except.error.inj he).symm⟩
    | some m =>
      cases hu : m.update i with
      | ok m' => simp [update_of_ok hf hu, Except.map] at he
      | error e' =>
        rw [update_of_error hf hu] at he
        refine .inr ⟨.ofMetric m, m.dropZeroSign, e', by rw [find?_image, hf]; rfl,
          Row.toMetric_ofMetric (h.of_find? hf), ?_, (Except.error.inj he).symm⟩
        rw [Metric.update_dropZeroSign, hu]
  · intro row current next hrow hcurrent hu
    obtain ⟨m, hf, hm, rfl, rfl⟩ := hread row current hrow hcurrent
    rw [Metric.update_dropZeroSign] at hu
    obtain ⟨f, hst, -, hchange, hagain⟩ := statement_image h hf hu
    have hnext := hm.update hu
    refine ⟨f, .ofMetric next, next.dropZeroSign, hst, h.change_image_fst hf f, ?_,
      Row.toMetric_ofMetric hnext, ?_, rfl, ?_⟩
    · rw [hchange, find?_image, hagain]
      rfl
    · rw [applyUpdate_image h, update_of_ok hf hu, hchange]
      rfl
    · exact Metric.numEq_of_dropZeroSign_eq hnext.dropZeroSign hnext next.dropZeroSign_dropZeroSign
  · intro row current next hrow hcurrent hu hkind
    obtain ⟨m, hf, hm, rfl, rfl⟩ := hread row current hrow hcurrent
    rw [Metric.update_dropZeroSign] at hu
    obtain ⟨kind, name⟩ := key
    obtain rfl : kind = .counter := hkind
    obtain ⟨n, rfl⟩ := value_of_key_counter (key_of_find? hf)
    obtain ⟨-, hvalue⟩ := Metric.update_eq_ok_iff.1 hu
    obtain ⟨total, htotal, -⟩ := Option.map_eq_some_iff.1 hvalue
    obtain ⟨d, hd, hsum⟩ := Option.bind_eq_some_iff.1 htotal
    have hsum : total.toInt = n.toInt + d.toInt := Text.int64?_eq_some_iff.1 hsum
    exact ⟨n, d, rfl, hd, hsum ▸ total.minValue_le_toInt, hsum ▸ total.toInt_le⟩

end Ledger

/-- An update of a row as the database carries it out. -/
structure Execution where
  table : Table
  key : Key
  input : Input

namespace Execution

def answer (e : Execution) : Except StoreError Metric := (e.table.applyUpdate e.key e.input).1

end Execution

namespace Table

/-- The update of a row for an item of a batch, which may come after the row is added. -/
def itemExecutions (item : Metric) (t : Table) : List Execution :=
  match t.find? item.key with
  | some _ => [⟨t, item.key, .ofValue item.value⟩]
  | none =>
    match Metric.fresh item.kind item.name with
    | .error _ => []
    | .ok m =>
      match t.insert m with
      | (.error _, _) => []
      | (.ok (), t') => [⟨t', item.key, .ofValue item.value⟩]

def batchExecutions : List Metric → Table → List Execution
  | [], _ => []
  | item :: items, t => itemExecutions item t ++
    match t.upsert item with
    | (.error _, _) => []
    | (.ok _, t') => batchExecutions items t'

def executions (t : Table) : Operation → List Execution
  | .update key i => [⟨t, key, i⟩]
  | .updateBatch items _ => batchExecutions items t
  | _ => []

theorem fst_transaction {α : Type} (steps : Table → Except StoreError α × Table) (t : Table) :
    (transaction steps t).1 = (steps t).1 := by
  unfold transaction
  split
  · next h => rw [h]
  · next h => rw [h]

theorem map_answer_itemExecutions {item m : Metric} {t t' : Table} (h : t.upsert item = (.ok m, t')) :
    (itemExecutions item t).map Execution.answer = [.ok m] := by
  unfold upsert at h
  split at h
  · next hrow => simp [itemExecutions, hrow, Execution.answer, h]
  · next hnone =>
    split at h
    · cases h
    · next hfresh =>
      split at h
      · cases h
      · next hinsert => simp [itemExecutions, hnone, hfresh, hinsert, Execution.answer, h]

theorem map_answer_batchExecutions {items ms : List Metric} {t : Table}
    (h : (t.upsertAll items).1 = .ok ms) : (batchExecutions items t).map Execution.answer = ms.map .ok := by
  induction items generalizing t ms with
  | nil =>
    cases h
    rfl
  | cons item items ih =>
    cases hu : t.upsert item with
    | mk answer t' =>
      cases answer with
      | error e => simp [upsertAll, hu] at h
      | ok m =>
        have hrest := upsertAll_cons_ok hu items
        rw [h] at hrest
        cases hall : (t'.upsertAll items).1 with
        | error e => simp [hall, Except.map] at hrest
        | ok ms' =>
          obtain rfl : ms = m :: ms' := by simpa [hall, Except.map] using hrest
          rw [batchExecutions, hu, List.map_append, map_answer_itemExecutions hu, ih hall]
          rfl

end Table

namespace Ledger
variable {l : Ledger} {e : Execution}

theorem Valid.exists_of_mem_itemExecutions (h : l.Valid) {item : Metric}
    (he : e ∈ l.image.itemExecutions item) : ∃ l' : Ledger, l'.Valid ∧ e.table = l'.image := by
  unfold Table.itemExecutions at he
  split at he
  · exact ⟨l, h, List.mem_singleton.1 he ▸ rfl⟩
  · next hnone =>
    split at he
    · cases he
    · next m hm =>
      rw [insert_image] at he
      cases hf : l.find? m.key with
      | some a => simp [add_of_some hf] at he
      | none =>
        rw [add_of_none hf] at he
        exact ⟨l.put m, h.put (Metric.wellFormed_of_fresh hm), List.mem_singleton.1 he ▸ rfl⟩

theorem Valid.exists_of_mem_batchExecutions (h : l.Valid) {items : List Metric}
    (hitems : ∀ item ∈ items, item.WellFormed) (he : e ∈ l.image.batchExecutions items) :
    ∃ l' : Ledger, l'.Valid ∧ e.table = l'.image := by
  induction items generalizing l with
  | nil => cases he
  | cons item items ih =>
    obtain ⟨hitem, hrest⟩ := List.forall_mem_cons.1 hitems
    rw [Table.batchExecutions] at he
    rcases List.mem_append.1 he with he | he
    · exact h.exists_of_mem_itemExecutions he
    · obtain ⟨a, hc⟩ : ∃ a, l.current item.key = .ok a := exists_current hitem.name l
      have hvalid := (h.put (h.of_current hc)).update item.key (.ofValue item.value)
      rw [upsert_image h hc] at he
      split at he
      · cases he
      · next hstep =>
        obtain rfl := (Prod.mk.inj hstep).2
        exact ih hvalid hrest he

theorem Valid.settles_of_mem_executions (h : l.Valid) {op : Operation} (he : e ∈ l.image.executions op) :
    e.table.Settles e.key e.input := by
  have himage : ∃ l' : Ledger, l'.Valid ∧ e.table = l'.image := by
    cases op with
    | update key i => exact ⟨l, h, List.mem_singleton.1 he ▸ rfl⟩
    | updateBatch items hitems => exact h.exists_of_mem_batchExecutions hitems he
    | add m hm => cases he
    | retrieve key => cases he
    | all => cases he
  obtain ⟨l', hl', htable⟩ := himage
  exact htable ▸ hl'.settles_image e.key e.input

end Ledger

namespace Table

/-- How an attempt at an operation goes: as it should, or it is carried out and the answer is lost, or the
database fails and puts the table back. -/
inductive Fate where
  | done
  | lost (connection : Bool)
  | failed (connection : Bool)

/-- An attempt at an operation. An operation that is repeated is tried several times. -/
structure Attempt where
  op : Operation
  fate : Fate

def Attempt.run (a : Attempt) (t : Table) : Except StoreError Answer × Table :=
  match a.fate with
  | .done => backend.perform a.op t
  | .lost connection => (.error (.database connection), (backend.perform a.op t).2)
  | .failed connection => (.error (.database connection), t)

def runAll (attempts : List Attempt) (t : Table) : Table := attempts.foldl (fun t a => (a.run t).2) t

theorem exists_image_run {l : Ledger} (h : l.Valid) (a : Attempt) :
    ∃ l' : Ledger, l'.Valid ∧ (a.run l.image).2 = l'.image := by
  obtain ⟨l', hl', hperform⟩ := h.exists_image_perform a.op
  unfold Attempt.run
  split
  · exact ⟨l', hl'.valid, hperform⟩
  · exact ⟨l', hl'.valid, hperform⟩
  · exact ⟨l, h, rfl⟩

theorem exists_image_runAll {l : Ledger} (h : l.Valid) (attempts : List Attempt) :
    ∃ l' : Ledger, l'.Valid ∧ runAll attempts l.image = l'.image := by
  induction attempts generalizing l with
  | nil => exact ⟨l, h, rfl⟩
  | cons a attempts ih =>
    obtain ⟨l', hl', hrun⟩ := exists_image_run h a
    obtain ⟨l'', hl'', hrest⟩ := ih hl'
    exact ⟨l'', hl'', by rw [runAll, List.foldl_cons, hrun]; exact hrest⟩

/-- After any attempts on a table that starts empty its rows are proper. So each of them stands for a metric,
all can be listed, and a lookup fails only where there is no row. Whatever is tried next, each update of a
row in it settles, and these updates give its answers. -/
theorem runAll_isProper (attempts : List Attempt) :
    (runAll attempts []).IsProper ∧ (∀ r ∈ runAll attempts [], ∃ m, r.toMetric = .ok m) ∧
      (∃ ms, (runAll attempts []).all = .ok ms) ∧
      (∀ key e, (runAll attempts []).retrieve key = .error e → e = .notFound key) ∧
      (∀ op, ∀ e ∈ (runAll attempts []).executions op, e.table.Settles e.key e.input) ∧
      (∀ key i, ((runAll attempts []).update key i).1 = ((runAll attempts []).applyUpdate key i).1) ∧
      ∀ items ms, ((runAll attempts []).updateBatch items).1 = .ok ms →
        ((runAll attempts []).batchExecutions items).map Execution.answer = ms.map .ok := by
  obtain ⟨l, hl, ht⟩ := exists_image_runAll .nil attempts
  have ht : runAll attempts [] = l.image := ht
  have hproper := hl.isProper_image
  rw [ht]
  refine ⟨hproper, fun r hr => ?_, hproper.exists_all, fun key e he => ?_,
    fun op e he => hl.settles_of_mem_executions he, fun key i => ?_, fun items ms hms => ?_⟩
  · obtain ⟨m, hm, -, -⟩ := (hproper.rows r hr).exists_toMetric
    exact ⟨m, hm⟩
  · rcases hproper.retrieve key with ⟨m, hm, -⟩ | ⟨-, hm⟩
    · cases hm.symm.trans he
    · exact (Except.error.inj (hm.symm.trans he)).symm
  · exact fst_transaction _ _
  · exact map_answer_batchExecutions ((fst_transaction _ _).symm.trans hms)

/-- A row that is added and whose answer is lost is there when the same is tried again, and an update that
fails is not seen. -/
example : runAll [⟨.add ⟨"hits", .counter 5⟩ (by decide), .lost true⟩,
    ⟨.add ⟨"hits", .counter 5⟩ (by decide), .done⟩, ⟨.update ⟨.counter, "hits"⟩ (.int 3), .failed true⟩,
    ⟨.update ⟨.counter, "hits"⟩ (.int 4), .done⟩] [] = [⟨"counter", "hits", some 9, none⟩] := by
  decide +kernel

end Table
end Telemetry
