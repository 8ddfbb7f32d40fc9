import Telemetry.Proofs.Store.Totals
import Telemetry.Service.Basic

/-!
An update by value is an upsert. It takes up to three steps on the store, and run without anything
between them they amount to one step of a ledger: either the update is refused as invalid and the store
is as before, or the metric has its new value and nothing else has changed.
-/
namespace Telemetry
namespace Service

section Steps
variable {σ : Type} {b : Backend σ} {kind name : String} {fresh m : Metric} {i : Input} {s s' s'' : σ}

theorem Stage.run_done (b : Backend σ) (answer : Except RequestError Metric) (n : Nat) (s : σ) :
    (Stage.done answer).run b n s = (.done answer, s) := by
  induction n with
  | zero => rfl
  | succ n ih => simpa [Stage.run, Stage.step] using ih

theorem updateByValue_of_unparsed {e : MetricError} (hp : Metric.parse kind name = .error e) :
    updateByValue b kind name i s = (.error (.invalid (.metric e)), s) := by
  simp [updateByValue, Stage.start, hp, Stage.run_done, Stage.answer]

theorem updateByValue_of_updated (hp : Metric.parse kind name = .ok fresh)
    (hu : b.update fresh.key i s = (.ok m, s')) : updateByValue b kind name i s = (.ok m, s') := by
  simp [updateByValue, Stage.start, hp, Stage.run, Stage.step, hu, Stage.answer]

theorem updateByValue_of_refused {e : MetricError} (hp : Metric.parse kind name = .ok fresh)
    (hu : b.update fresh.key i s = (.error (.metric e), s')) :
    updateByValue b kind name i s = (.error (.invalid (.metric e)), s') := by
  simp [updateByValue, Stage.start, hp, Stage.run, Stage.step, hu, Stage.answer,
    RequestError.ofStore]

theorem updateByValue_of_unfit {e : MetricError} {key : Key}
    (hp : Metric.parse kind name = .ok fresh)
    (hu : b.update fresh.key i s = (.error (.notFound key), s')) (hf : fresh.update i = .error e) :
    updateByValue b kind name i s = (.error (.invalid (.metric e)), s') := by
  simp [updateByValue, Stage.start, hp, Stage.run, Stage.step, hu, hf, Stage.answer]

theorem updateByValue_of_added {key : Key} (hp : Metric.parse kind name = .ok fresh)
    (hu : b.update fresh.key i s = (.error (.notFound key), s')) (hf : fresh.update i = .ok m)
    (ha : b.add m s' = (.ok (), s'')) : updateByValue b kind name i s = (.ok m, s'') := by
  simp [updateByValue, Stage.start, hp, Stage.run, Stage.step, hu, hf, ha, Stage.answer]

end Steps

section OnLedger
variable {kind name : String} {fresh m : Metric} {i : Input} {l l' : Ledger}

theorem current_of_parse (hp : Metric.parse kind name = .ok fresh) (hf : l.find? fresh.key = none) :
    l.current fresh.key = .ok fresh := by
  obtain ⟨-, rfl, hfresh⟩ := Metric.fresh_of_parse hp
  exact (Ledger.current_of_none hf).trans hfresh

/-- A backend does in the state that stands for a ledger what is done on the ledger, up to a change `g`
of the metrics that updates give. -/
structure Mirrors {σ : Type} (b : Backend σ) (g : Metric → Metric) (f : Ledger → σ) (l : Ledger) :
    Prop where
  update : ∀ key i, b.update key i (f l) = Prod.map (Except.map g) f (l.update key i)
  add : ∀ m, b.add m (f l) = Prod.map id f (l.add m)

section
variable {σ : Type} {b : Backend σ} {g : Metric → Metric} {f : Ledger → σ}

theorem Mirrors.updateByValue_of_applied (h : Mirrors b g f l)
    (hp : Metric.parse kind name = .ok fresh) (ha : l.apply fresh.key i = .ok (m, l')) :
    ∃ m', updateByValue b kind name i (f l) = (.ok m', f l') ∧ (m' = m ∨ m' = g m) := by
  obtain ⟨a, hc, hu, -, rfl⟩ := Ledger.apply_eq_ok ha
  have hup := h.update fresh.key i
  cases hf : l.find? fresh.key with
  | some b =>
    obtain rfl : b = a := Except.ok.inj ((Ledger.current_of_some hf).symm.trans hc)
    rw [Ledger.update_of_ok hf hu] at hup
    exact ⟨g m, updateByValue_of_updated hp hup, .inr rfl⟩
  | none =>
    obtain rfl : fresh = a := Except.ok.inj ((current_of_parse hp hf).symm.trans hc)
    rw [Ledger.update_of_none hf] at hup
    have hadd := h.add m
    rw [Ledger.add_of_none (Metric.key_update hu ▸ hf)] at hadd
    exact ⟨m, updateByValue_of_added hp hup hu hadd, .inl rfl⟩

theorem Mirrors.updateByValue_of_not_applied {e : MetricError} (h : Mirrors b g f l)
    (hp : Metric.parse kind name = .ok fresh) (ha : l.apply fresh.key i = .error e) :
    updateByValue b kind name i (f l) = (.error (.invalid (.metric e)), f l) := by
  have hup := h.update fresh.key i
  cases hf : l.find? fresh.key with
  | some a =>
    have hu := Ledger.update_eq_error_of_apply (Ledger.current_of_some hf) ha
    rw [Ledger.update_of_error hf hu] at hup
    exact updateByValue_of_refused hp hup
  | none =>
    have hu := Ledger.update_eq_error_of_apply (current_of_parse hp hf) ha
    rw [Ledger.update_of_none hf] at hup
    exact updateByValue_of_unfit hp hup hu

end

theorem map_id_eq (r : Except StoreError Metric) : r.map id = r := by cases r <;> rfl

theorem mirrors_ledger (l : Ledger) : Mirrors Ledger.backend id id l :=
  ⟨fun key i => by simp [Ledger.backend, Prod.map, map_id_eq], fun _ => rfl⟩

theorem updateByValue_ledger (hp : Metric.parse kind name = .ok fresh) (i : Input) (l : Ledger) :
    updateByValue Ledger.backend kind name i l = match l.apply fresh.key i with
      | .ok (m, l') => (.ok m, l')
      | .error e => (.error (.invalid (.metric e)), l) := by
  cases ha : l.apply fresh.key i with
  | ok r =>
    obtain ⟨m', hm, hcase⟩ := (mirrors_ledger l).updateByValue_of_applied hp ha
    obtain rfl : m' = r.1 := hcase.elim id id
    exact hm
  | error e => exact (mirrors_ledger l).updateByValue_of_not_applied hp ha

end OnLedger

section OnStore
variable {kind name : String} {k : Kind} {i : Input} {l l' : Ledger} {s : Store}

theorem mirrors_store (h : l.Valid) (s : Store) : Mirrors Store.backend s.kept (s.refill ·) l := by
  cases s with
  | memory _ => exact ⟨fun _ _ => Prod.ext (map_id_eq _).symm rfl, fun _ => rfl⟩
  | file _ _ => exact ⟨fun _ _ => Prod.ext (map_id_eq _).symm rfl, fun _ => rfl⟩
  | table _ =>
    constructor
    · intro key i
      change Store.backend.update key i (.table l.image) = _
      rw [Store.embeds_table.update, show Table.backend.update = Table.update from rfl,
        Ledger.update_image h]
      rfl
    · intro m
      change Store.backend.add m (.table l.image) = _
      rw [Store.embeds_table.add, show Table.backend.add = Table.insert from rfl,
        Ledger.insert_image]
      rfl

/-- Why an upsert is refused: there is no such kind or name, the input does not fit the kind, or the sum
of the total and the delta is no 64-bit integer. -/
def Refused (kind name : String) (i : Input) (s : Store) : Prop :=
  Kind.ofText? kind = none ∨ isName name = false ∨
    (kind = "counter" ∧ i.delta? = none) ∨ (kind = "gauge" ∧ i.reading? = none) ∨
    (kind = "counter" ∧ ∃ d, i.delta? = some d ∧
      (s.total name + d.toInt < Int64.minValue.toInt ∨
        Int64.maxValue.toInt < s.total name + d.toInt))

inductive Brings (s : Store) (i : Input) : Key → Value → Prop
  | counter {name : String} {d n : Int64} (hd : i.delta? = some d)
      (hn : n.toInt = s.total name + d.toInt) : Brings s i ⟨.counter, name⟩ (.counter n)
  | gauge {name : String} {x : Binary64} (hx : i.reading? = some x) :
      Brings s i ⟨.gauge, name⟩ (.gauge x)

/-- What an upsert with the answer `m` does: the answer has the value that it is to have, a lookup gives
it back, and what is under other keys stays. -/
structure Upserted (key : Key) (i : Input) (s s' : Store) (m : Metric) : Prop where
  value : ∃ v, Brings s i key v ∧ s.Same m ⟨key.name, v⟩
  retrieved : ∃ m', Store.backend.retrieve key s' = .ok m' ∧ s.Same m' m
  others : ∀ other, other ≠ key → s'.value? other = s.value? other

theorem refused_iff (hk : Kind.ofText? kind = some k) (hn : isName name) :
    Refused kind name i s ↔ upsertValue? (s.total name) i k = none := by
  have hcounter : kind = "counter" ↔ k = .counter := by
    rw [Kind.text_of_ofText? hk]; cases k <;> decide
  have hgauge : kind = "gauge" ↔ k = .gauge := by
    rw [Kind.text_of_ofText? hk]; cases k <;> decide
  simp only [Refused, hk, hn, hcounter, hgauge]
  cases k with
  | counter => simp [upsertValue?_counter_eq_none_iff]
  | gauge => simp [upsertValue?_gauge_eq_none_iff]

theorem refused_of_unparsed {e : MetricError} (hp : Metric.parse kind name = .error e) :
    Refused kind name i s := by
  unfold Metric.parse at hp
  split at hp
  · next hk => exact .inl hk
  · next k hk =>
    by_cases hn : isName name
    · simp [Metric.fresh, hn] at hp
    · exact .inr (.inl (by simpa using hn))

theorem brings_of_upsertValue? {v : Value} (h : upsertValue? (s.total name) i k = some v) :
    Brings s i ⟨k, name⟩ v := by
  cases k with
  | counter =>
    obtain ⟨n, hn, rfl⟩ := Option.map_eq_some_iff.1 h
    obtain ⟨d, hd, hsum⟩ := Option.bind_eq_some_iff.1 hn
    exact .counter hd (Text.int64?_eq_some_iff.1 hsum)
  | gauge =>
    obtain ⟨x, hx, rfl⟩ := Option.map_eq_some_iff.1 h
    exact .gauge hx

theorem upserted_refill (h : l.Valid) (s : Store) {m m' : Metric} {key : Key}
    (ha : l.apply key i = .ok (m, l')) (hv : Brings (s.refill l) i key m.value)
    (hm' : m' = m ∨ m' = s.kept m) : Upserted key i (s.refill l) (s.refill l') m' := by
  obtain ⟨hm, hl'⟩ := h.apply ha
  obtain ⟨-, -, -, hkey, rfl⟩ := Ledger.apply_eq_ok ha
  subst hkey
  have hwf : m'.WellFormed := by
    rcases hm' with rfl | rfl
    · exact hm
    · exact s.wellFormed_kept hm
  have hkept : s.kept m' = s.kept m := by rcases hm' with rfl | rfl <;> simp
  have hsame : ∀ {a b : Metric}, (s.refill l).Same a b ↔ s.Same a b := by
    intro a b
    cases s <;> rfl
  refine ⟨⟨m.value, hv, hsame.2 (Store.same_of_kept_eq hwf hm hkept)⟩, ⟨s.kept m, ?_, ?_⟩, ?_⟩
  · rw [Store.retrieve_refill hl', Ledger.retrieve, Ledger.find?_put_self]
    rfl
  · exact hsame.2 (Store.same_of_kept_eq (s.wellFormed_kept hm) hwf (by simp [hkept]))
  · intro other hne
    exact Store.value?_refill_congr (Ledger.find?_put_of_ne hne.symm l) s

/-- An update by value on a store that can come about is refused as invalid exactly for the reasons of an
upsert, and then leaves the store as it was; otherwise it is the upsert. -/
theorem updateByValue_upserts {s : Store} (hs : s.Reachable) (kind name : String) (i : Input) :
    ((∃ e, (updateByValue Store.backend kind name i s).1 = .error (.invalid e)) ↔
      Refused kind name i s) ∧
    (Refused kind name i s → (updateByValue Store.backend kind name i s).2 = s) ∧
    (¬ Refused kind name i s → ∃ k m, Kind.ofText? kind = some k ∧
      (updateByValue Store.backend kind name i s).1 = .ok m ∧
      Upserted ⟨k, name⟩ i s (updateByValue Store.backend kind name i s).2 m) := by
  obtain ⟨l, hl, hholds⟩ := hs.holds
  cases hp : Metric.parse kind name with
  | error e =>
    have hrefused : Refused kind name i s := refused_of_unparsed hp
    rw [updateByValue_of_unparsed hp]
    exact ⟨⟨fun _ => hrefused, fun _ => ⟨_, rfl⟩⟩, fun _ => rfl, fun h => absurd hrefused h⟩
  | ok fresh =>
    obtain ⟨rfl, rfl, hfresh⟩ := Metric.fresh_of_parse hp
    have hname : isName fresh.name := (Metric.fresh_eq_ok_iff.1 hfresh).1
    have hkind : Kind.ofText? fresh.kind.text = some fresh.kind := Kind.ofText?_text _
    have htotal : s.total fresh.name = l.total fresh.name := by
      rw [← hholds.refill_eq, Store.total_refill]
    have hiff := refused_iff (i := i) (s := s) hkind hname
    obtain ⟨a, hc⟩ : ∃ a, l.current ⟨fresh.kind, fresh.name⟩ = .ok a := Ledger.exists_current hname l
    have happly := Ledger.apply_eq_upsertValue? hc i
    rw [htotal] at hiff
    cases hv : upsertValue? (l.total fresh.name) i fresh.kind with
    | none =>
      have hrefused := hiff.2 hv
      rw [hv] at happly
      have hrun := (mirrors_store hl s).updateByValue_of_not_applied hp happly
      simp only [hholds.refill_eq] at hrun
      rw [hrun]
      exact ⟨⟨fun _ => hrefused, fun _ => ⟨_, rfl⟩⟩, fun _ => rfl, fun h => absurd hrefused h⟩
    | some v =>
      have hnot : ¬ Refused fresh.kind.text fresh.name i s := fun h => by simp [hiff.1 h] at hv
      rw [hv] at happly
      obtain ⟨m', hrun, hm'⟩ := (mirrors_store hl s).updateByValue_of_applied hp happly
      have hbrings : Brings s i ⟨fresh.kind, fresh.name⟩ v := brings_of_upsertValue? (htotal ▸ hv)
      have hdone := upserted_refill hl s happly (hholds.refill_eq.symm ▸ hbrings) hm'
      simp only [hholds.refill_eq] at hrun hdone
      rw [hrun]
      exact ⟨⟨fun ⟨e, he⟩ => by simp at he, fun h => absurd h hnot⟩, fun h => absurd h hnot,
        fun _ => ⟨_, m', hkind, rfl, hdone⟩⟩

def fullTable : Store :=
  (Store.backend.perform (.add ⟨"hits", .counter 9223372036854775807⟩ (by decide)) (.table [])).2

/-- The full counter takes no more increments, but a decrement in text. -/
theorem updateByValue_upserts_fullTable : fullTable.Reachable ∧
    (Refused "counter" "hits" (.int 1) fullTable ∧
      (updateByValue Store.backend "counter" "hits" (.int 1) fullTable).2 = fullTable) ∧
    ¬ Refused "counter" "hits" (.text " -7 ") fullTable ∧
    ∃ k m, Kind.ofText? "counter" = some k ∧
      (updateByValue Store.backend "counter" "hits" (.text " -7 ") fullTable).1 = .ok m ∧
      Upserted ⟨k, "hits"⟩ (.text " -7 ") fullTable
        (updateByValue Store.backend "counter" "hits" (.text " -7 ") fullTable).2 m := by
  have hs : fullTable.Reachable := .perform (.start .table) _
  have hfull : Refused "counter" "hits" (.int 1) fullTable :=
    (refused_iff (k := .counter) rfl (by decide)).2 (by decide +kernel)
  have hfree : ¬ Refused "counter" "hits" (.text " -7 ") fullTable := by
    rw [refused_iff (k := .counter) rfl (by decide)]
    decide +kernel
  exact ⟨hs, ⟨hfull, (updateByValue_upserts hs "counter" "hits" (.int 1)).2.1 hfull⟩, hfree,
    (updateByValue_upserts hs "counter" "hits" (.text " -7 ")).2.2 hfree⟩

end OnStore

end Service
end Telemetry
