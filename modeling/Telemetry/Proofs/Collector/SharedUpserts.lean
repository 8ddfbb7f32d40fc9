import Telemetry.Proofs.Service.Upsert

/-!
The map of an agent and the store of a server take the same updates. One looks up and puts back in a single
step, the other updates, adds and updates again, and a batch does it item by item; still each update gives the
same metric or is refused in the same words, and the metrics listed after it are the same.
-/
namespace Telemetry

/-- An update as it comes in: a kind, a name and an input, none of which need be right. -/
structure Submission where
  kind : String
  name : String
  input : Input

abbrev Outcome := Except String Metric

namespace Submission

def onMap (u : Submission) (l : Ledger) : Outcome × Ledger :=
  match Kind.ofText? u.kind with
  | none => (.error (MetricError.invalidKind u.kind).message, l)
  | some k =>
    match l.apply ⟨k, u.name⟩ u.input with
    | .ok (m, l') => (.ok m, l')
    | .error e => (.error e.message, l)

def onStore (u : Submission) (l : Ledger) : Outcome × Ledger :=
  Prod.map (Except.mapError RequestError.message) id
    (Service.updateByValue Ledger.backend u.kind u.name u.input l)

/-- The metric that an update makes of nothing. -/
def metric (u : Submission) : Except MetricError Metric :=
  (Metric.parse u.kind u.name).bind fun fresh => fresh.update u.input

variable {ρ : Type} (step : Submission → Ledger → Outcome × Ledger) (list : Ledger → ρ)

/-- What becomes of updates one after another, and what is listed after each of them. -/
def observe : List Submission → Ledger → List (Outcome × ρ)
  | [], _ => []
  | u :: us, l => ((step u l).1, list (step u l).2) :: observe us (step u l).2

def after (us : List Submission) (l : Ledger) : Ledger := us.foldl (fun l u => (step u l).2) l

end Submission

namespace Metric

theorem parse_of_ofText? {kind : String} {k : Kind} (h : Kind.ofText? kind = some k) (name : String) :
    parse kind name = fresh k name := by
  simp [parse, h]

theorem fresh_of_not_isName {name : String} (h : isName name = false) (k : Kind) :
    fresh k name = .error (.invalidName name) := by
  simp [fresh, h]

/-- The value that an input makes of nothing does to any value of the kind what the input does. -/
theorem nextValue?_ofValue_of_zero {i : Input} {v w : Value}
    (h : nextValue? i (.zero v.kind) = some w) : nextValue? (.ofValue w) v = nextValue? i v := by
  cases v with
  | counter n =>
    obtain ⟨d', hd', rfl⟩ := Option.map_eq_some_iff.1 h
    obtain ⟨d, hd, hsum⟩ := Option.bind_eq_some_iff.1 hd'
    have hint : d'.toInt = 0 + d.toInt := Text.int64?_eq_some_iff.1 hsum
    obtain rfl : d' = d := Int64.toInt_inj.1 (hint.trans (Int.zero_add _))
    have hdelta : (Input.ofValue (.counter d')).delta? = some d' := rfl
    simp only [nextValue?, hdelta, hd]
  | gauge x =>
    obtain ⟨y, hy, rfl⟩ := Option.map_eq_some_iff.1 h
    have hreading : (Input.ofValue (.gauge y)).reading? = some y :=
      Option.filter_eq_some_iff.2 ⟨rfl, Input.isFinite_of_reading? hy⟩
    simp only [nextValue?, hreading, hy]

end Metric

namespace Ledger
variable {l : Ledger} {key : Key} {item : Metric} {i : Input}

theorem apply_of_not_isName (h : l.Valid) (hn : isName key.name = false) :
    l.apply key i = .error (.invalidName key.name) := by
  rw [apply_eq, h.current_of_not_isName hn]
  rfl

/-- An upsert of the metric that an input makes of nothing is one with the input; only the words of a refusal
may differ. -/
theorem toOption_upsert_of_fresh {k : Kind} {name : String} {fresh : Metric}
    (hfresh : Metric.fresh k name = .ok fresh) (hitem : fresh.update i = .ok item) (l : Ledger) :
    (l.upsert item).toOption = (l.apply ⟨k, name⟩ i).toOption := by
  have hkey : item.key = ⟨k, name⟩ := (Metric.key_update hitem).trans (Metric.key_of_fresh hfresh)
  obtain ⟨hname, rfl⟩ := Metric.fresh_eq_ok_iff.1 hfresh
  obtain ⟨-, hvalue⟩ := Metric.update_eq_ok_iff.1 hitem
  obtain ⟨a, ha⟩ : ∃ a, l.current ⟨k, name⟩ = .ok a := exists_current hname l
  have hkind : a.value.kind = k := congrArg Key.kind (key_of_current ha)
  have hnext : Metric.nextValue? (.ofValue item.value) a.value = Metric.nextValue? i a.value :=
    Metric.nextValue?_ofValue_of_zero (hkind.symm ▸ hvalue)
  rw [upsert, hkey]
  cases hv : Metric.nextValue? i a.value with
  | some v =>
    have hu : a.update i = .ok ⟨a.name, v⟩ := by simp [Metric.update, hv]
    have hu' : a.update (.ofValue item.value) = .ok ⟨a.name, v⟩ := by simp [Metric.update, hnext, hv]
    rw [apply_of_ok ha hu, apply_of_ok ha hu']
  | none =>
    have hu : a.update i = .error (.invalidValue a.kind i.display) := by simp [Metric.update, hv]
    have hu' : a.update (.ofValue item.value) =
        .error (.invalidValue a.kind (Input.ofValue item.value).display) := by
      simp [Metric.update, hnext, hv]
    rw [apply_of_error ha hu, apply_of_error ha hu']
    rfl

theorem updateBatch_singleton (item : Metric) (l : Ledger) : l.updateBatch [item] =
    match (l.upsert item).toOption with
    | some (m, l') => (.ok [m], l')
    | none => (.ok [], l) := by
  cases hup : l.upsert item with
  | ok r => rw [updateBatch, applyAll_cons_ok hup]; rfl
  | error e => rw [updateBatch, applyAll_cons_error hup]; rfl

end Ledger

namespace Submission
variable {l l' : Ledger} {u : Submission} {k : Kind} {item m : Metric} {e : MetricError}

theorem onMap_of_ok (hk : Kind.ofText? u.kind = some k)
    (happly : l.apply ⟨k, u.name⟩ u.input = .ok (m, l')) : u.onMap l = (.ok m, l') := by
  simp [onMap, hk, happly]

theorem onMap_of_error (hk : Kind.ofText? u.kind = some k)
    (happly : l.apply ⟨k, u.name⟩ u.input = .error e) : u.onMap l = (.error e.message, l) := by
  simp [onMap, hk, happly]

theorem valid_onMap (h : l.Valid) (u : Submission) : (u.onMap l).2.Valid := by
  unfold onMap
  split
  · exact h
  · split
    · next happly => exact (h.apply happly).2
    · exact h

theorem onStore_eq_onMap (h : l.Valid) (u : Submission) : u.onStore l = u.onMap l := by
  cases hk : Kind.ofText? u.kind with
  | none =>
    have hparse : Metric.parse u.kind u.name = .error (.invalidKind u.kind) := by
      simp [Metric.parse, hk]
    rw [onStore, onMap, hk, Service.updateByValue_of_unparsed hparse]
    rfl
  | some k =>
    have hparse := Metric.parse_of_ofText? hk u.name
    cases hn : isName u.name with
    | false =>
      rw [Metric.fresh_of_not_isName hn] at hparse
      rw [onStore, Service.updateByValue_of_unparsed hparse,
        onMap_of_error hk (Ledger.apply_of_not_isName h hn)]
      rfl
    | true =>
      have hfresh : Metric.fresh k u.name = .ok ⟨u.name, .zero k⟩ := Metric.fresh_eq_ok_iff.2 ⟨hn, rfl⟩
      rw [onStore, Service.updateByValue_ledger (hparse.trans hfresh), Metric.key_of_fresh hfresh]
      cases happly : l.apply ⟨k, u.name⟩ u.input with
      | ok r => exact (onMap_of_ok hk happly).symm
      | error e => exact (onMap_of_error hk happly).symm

theorem after_onStore (h : l.Valid) (us : List Submission) :
    after onStore us l = after onMap us l ∧ (after onMap us l).Valid := by
  induction us generalizing l with
  | nil => exact ⟨rfl, h⟩
  | cons u us ih =>
    obtain ⟨hsame, hvalid⟩ := ih (valid_onMap h u)
    exact ⟨by rw [after, List.foldl_cons, onStore_eq_onMap h]; exact hsame, hvalid⟩

/-- By induction on the updates: the ledgers stay valid, so that no metric with a bad name is found. -/
theorem observe_onStore (h : l.Valid) (us : List Submission) :
    observe onStore Ledger.backend.all us l = observe onMap .ok us l := by
  induction us generalizing l with
  | nil => rfl
  | cons u us ih =>
    rw [observe, observe, onStore_eq_onMap h, ih (valid_onMap h u)]
    rfl

theorem updateBatch_metric (hitem : u.metric = .ok item) (l : Ledger) :
    l.updateBatch [item] = (.ok (u.onMap l).1.toOption.toList, (u.onMap l).2) := by
  obtain ⟨fresh, hparse, hupdate⟩ : ∃ fresh, Metric.parse u.kind u.name = .ok fresh ∧
      fresh.update u.input = .ok item := by
    unfold metric at hitem
    cases hparse : Metric.parse u.kind u.name with
    | error e => rw [hparse] at hitem; cases hitem
    | ok fresh => exact ⟨fresh, rfl, by rwa [hparse] at hitem⟩
  obtain ⟨hkind, hname, hfresh⟩ := Metric.fresh_of_parse hparse
  rw [hname] at hfresh
  have hk : Kind.ofText? u.kind = some fresh.kind := hkind ▸ Kind.ofText?_text _
  rw [Ledger.updateBatch_singleton, Ledger.toOption_upsert_of_fresh hfresh hupdate]
  cases happly : l.apply ⟨fresh.kind, u.name⟩ u.input with
  | ok r => rw [onMap_of_ok hk happly]; rfl
  | error e => rw [onMap_of_error hk happly]; rfl

/-- Whatever updates come to an empty map and to an empty store, each gives the same metric in both or is
refused in both with the same text, and both list the same metrics after it. An update that makes a metric of
nothing may as well come to the store as a batch with this metric alone: what it gives is the answer, and a
refused one is passed over. -/
theorem map_and_store_agree (us : List Submission) :
    observe onStore Ledger.backend.all us [] = observe onMap .ok us [] ∧
      ∀ (u : Submission) (item : Metric), u.metric = .ok item →
        Ledger.backend.updateBatch [item] (after onStore us []) =
          (.ok (u.onStore (after onStore us [])).1.toOption.toList,
            (u.onStore (after onStore us [])).2) := by
  refine ⟨observe_onStore .nil us, fun u item hitem => ?_⟩
  obtain ⟨hsame, hvalid⟩ := after_onStore .nil us
  rw [hsame, onStore_eq_onMap hvalid]
  exact updateBatch_metric hitem _

/-- A name with a blank, an unknown kind and a counter that is full are refused in both with the same words,
and the full counter takes a decrement as a batch. -/
theorem map_and_store_agree_fullCounter :
    let us : List Submission := [⟨"counter", "hits", .text "9223372036854775807"⟩,
      ⟨"gauge", "bad name", .int 1⟩, ⟨"histogram", "hits", .int 1⟩, ⟨"counter", "hits", .int 1⟩]
    let l : Ledger := [⟨"hits", .counter 9223372036854775807⟩]
    observe onStore Ledger.backend.all us [] =
        [(.ok ⟨"hits", .counter 9223372036854775807⟩, .ok l),
          (.error "invalid metric name 'bad name'", .ok l),
          (.error "invalid metric kind 'histogram'", .ok l),
          (.error "invalid counter value '1'", .ok l)] ∧
      (Submission.mk "counter" "hits" (.text " -7 ")).metric = .ok ⟨"hits", .counter (-7)⟩ ∧
      Ledger.backend.updateBatch [⟨"hits", .counter (-7)⟩] l =
        (.ok [⟨"hits", .counter 9223372036854775800⟩], [⟨"hits", .counter 9223372036854775800⟩]) := by
  intro us l
  obtain ⟨hobserve, hbatch⟩ := map_and_store_agree us
  have hl : after onStore us [] = l := by decide +kernel
  have hitem : (Submission.mk "counter" "hits" (.text " -7 ")).metric = .ok ⟨"hits", .counter (-7)⟩ := by
    decide +kernel
  have hdone := hbatch _ _ hitem
  rw [hl] at hdone
  refine ⟨hobserve.trans (by decide +kernel), hitem, hdone.trans (by decide +kernel)⟩

end Submission
end Telemetry
