import Telemetry.Proofs.Metric.Reports

/-!
Batches on a ledger and on a table. The ledger passes over the items that it cannot take; the table
does the same as long as there is none, and at the first such item it is put back as it was.
-/
namespace Telemetry

namespace Ledger
variable {l l' : Ledger} {item m : Metric} {items : List Metric}

/-- An item can be taken, and this is the state right after it: the reading of the item, or its delta on
top of the total, if the sum is a 64-bit integer. -/
inductive Brings (l : Ledger) : Metric → Metric → Prop
  | counter {name : String} {d n : Int64} (h : n.toInt = l.total name + d.toInt) :
      Brings l ⟨name, .counter d⟩ ⟨name, .counter n⟩
  | gauge {name : String} {x : Binary64} : Brings l ⟨name, .gauge x⟩ ⟨name, .gauge x⟩

/-- A batch item by item: those taken, the states right after each of them, and the ledger at the end.
An item that cannot be taken changes nothing. -/
inductive BestEffort : List Metric → Ledger → List Metric → List Metric → Ledger → Prop
  | nil (l : Ledger) : BestEffort [] l [] [] l
  | taken {item m : Metric} {items as ms : List Metric} {l l' : Ledger} (h : Brings l item m)
      (hrest : BestEffort items (l.put m) as ms l') :
      BestEffort (item :: items) l (item :: as) (m :: ms) l'
  | passed {item : Metric} {items as ms : List Metric} {l l' : Ledger} (h : ∀ m, ¬ Brings l item m)
      (hrest : BestEffort items l as ms l') : BestEffort (item :: items) l as ms l'

/-- The first item of a batch that cannot be taken after those before it. -/
inductive FirstRefused : List Metric → Ledger → Metric → Prop
  | here {item : Metric} {items : List Metric} {l : Ledger} (h : ∀ m, ¬ Brings l item m) :
      FirstRefused (item :: items) l item
  | later {item m refused : Metric} {items : List Metric} {l : Ledger} (h : Brings l item m)
      (hrest : FirstRefused items (l.put m) refused) : FirstRefused (item :: items) l refused

theorem upsertValue?_ofValue (hitem : item.WellFormed) (l : Ledger) {v : Value} :
    upsertValue? (l.total item.name) (.ofValue item.value) item.kind = some v ↔
      l.Brings item ⟨item.name, v⟩ := by
  obtain ⟨name, w⟩ := item
  cases w with
  | counter d =>
    have hvalue : upsertValue? (l.total name) (.int d) .counter = some v ↔
        ∃ n, Text.int64? (l.total name + d.toInt) = some n ∧ Value.counter n = v := by
      simp [upsertValue?, Input.delta?]
    refine hvalue.trans ⟨?_, ?_⟩
    · rintro ⟨n, hn, rfl⟩
      exact .counter (Text.int64?_eq_some_iff.1 hn)
    · rintro ⟨hn⟩
      exact ⟨_, Text.int64?_eq_some_iff.2 hn, rfl⟩
  | gauge x =>
    have hx : x.isFinite = true := hitem.finite
    have hvalue : upsertValue? (l.total name) (.float x) .gauge = some (.gauge x) := by
      simp [upsertValue?, Input.reading?, Input.number?, hx]
    refine ⟨fun h => ?_, ?_⟩
    · obtain rfl := Option.some.inj (hvalue.symm.trans h)
      exact .gauge
    · rintro ⟨⟩
      exact hvalue

theorem upsert_of_brings (hitem : item.WellFormed) (h : l.Brings item m) :
    l.upsert item = .ok (m, l.put m) := by
  obtain ⟨a, hc⟩ : ∃ a, l.current ⟨item.kind, item.name⟩ = .ok a := exists_current hitem.name l
  have hname : m = ⟨item.name, m.value⟩ := by cases h <;> rfl
  have happly := apply_eq_upsertValue? hc (.ofValue item.value)
  rw [(upsertValue?_ofValue hitem l).2 (hname ▸ h)] at happly
  rw [hname]
  exact happly

theorem upsert_of_not_brings (hitem : item.WellFormed) (h : ∀ m, ¬ l.Brings item m) :
    l.upsert item = .error (.invalidValue item.kind item.value.text) := by
  obtain ⟨a, hc⟩ : ∃ a, l.current ⟨item.kind, item.name⟩ = .ok a := exists_current hitem.name l
  have happly := apply_eq_upsertValue? hc (.ofValue item.value)
  cases hv : upsertValue? (l.total item.name) (.ofValue item.value) item.kind with
  | some v => exact absurd ((upsertValue?_ofValue hitem l).1 hv) (h _)
  | none =>
    rw [hv, Input.display_ofValue] at happly
    exact happly

theorem brings_or_not (l : Ledger) (item : Metric) :
    (∃ m, l.Brings item m) ∨ ∀ m, ¬ l.Brings item m := by
  by_cases h : ∃ m, l.Brings item m
  · exact .inl h
  · exact .inr fun m hm => h ⟨m, hm⟩

theorem bestEffort_applyAll (hitems : ∀ item ∈ items, item.WellFormed) (l : Ledger) :
    BestEffort items l (l.accepted items) (applyAll items l).1 (applyAll items l).2 := by
  induction items generalizing l with
  | nil => exact .nil l
  | cons item items ih =>
    obtain ⟨hitem, hrest⟩ := List.forall_mem_cons.1 hitems
    rcases l.brings_or_not item with ⟨m, hm⟩ | hnone
    · have hup := upsert_of_brings hitem hm
      rw [applyAll_cons_ok hup, accepted, hup]
      exact .taken hm (ih hrest _)
    · have hup := upsert_of_not_brings hitem hnone
      rw [applyAll_cons_error hup, accepted, hup]
      exact .passed hnone (ih hrest l)

/-- The items taken are all the same taken without the others. -/
theorem BestEffort.of_taken {as ms : List Metric} (h : BestEffort items l as ms l') :
    BestEffort as l as ms l' := by
  induction h with
  | nil l => exact .nil l
  | taken h _ ih => exact .taken h ih
  | passed _ _ ih => exact ih

theorem BestEffort.exists_firstRefused {as ms : List Metric} (h : BestEffort items l as ms l')
    (hsome : as ≠ items) : ∃ item, FirstRefused items l item := by
  induction h with
  | nil l => exact absurd rfl hsome
  | taken h _ ih =>
    obtain ⟨item, hitem⟩ := ih fun heq => hsome (congrArg _ heq)
    exact ⟨item, .later h hitem⟩
  | passed h _ _ => exact ⟨_, .here h⟩

theorem upsertAll_image_of_firstRefused (hl : l.Valid) (hitems : ∀ item ∈ items, item.WellFormed)
    (h : FirstRefused items l item) : (l.image.upsertAll items).1 =
      .error (.metric (.invalidValue item.kind item.value.text)) := by
  induction h with
  | here h =>
    have hitem := hitems _ List.mem_cons_self
    exact Table.upsertAll_cons_error (upsert_image_error hl hitem (upsert_of_not_brings hitem h)) _
  | later h _ ih =>
    obtain ⟨hitem, hrest⟩ := List.forall_mem_cons.1 hitems
    have hup := upsert_of_brings hitem h
    rw [Table.upsertAll_cons_ok (upsert_image_ok hl hup), ih (hl.apply hup).2 hrest]
    rfl

end Ledger

namespace Table
variable {t t' : Table} {items : List Metric} {e : StoreError}

theorem exists_failing_of_upsertAll (h : (t.upsertAll items).1 = .error e) :
    ∃ before item after ms t', items = before ++ item :: after ∧
      t.upsertAll before = (.ok ms, t') ∧ (t'.upsert item).1 = .error e := by
  induction items generalizing t with
  | nil => cases h
  | cons item items ih =>
    cases hu : t.upsert item with
    | mk answer t' =>
      cases answer with
      | error e' =>
        rw [upsertAll_cons_error (congrArg Prod.fst hu)] at h
        obtain rfl : e' = e := Except.error.inj h
        exact ⟨[], item, items, [], t, rfl, rfl, congrArg Prod.fst hu⟩
      | ok m =>
        rw [upsertAll_cons_ok hu] at h
        cases hrest : (t'.upsertAll items).1 with
        | ok ms => simp [hrest, Except.map] at h
        | error e' =>
          obtain rfl : e' = e := by simpa [hrest, Except.map] using h
          obtain ⟨before, failing, after, ms, t'', rfl, hbefore, hfails⟩ := ih hrest
          refine ⟨item :: before, failing, after, m :: ms, t'', rfl, ?_, hfails⟩
          simp [upsertAll, hu, hbefore]

end Table
end Telemetry
