import Mathlib.Data.List.Perm.Basic
import Telemetry.Proofs.Store.Batch
import Telemetry.Proofs.Store.DumpText

/-!
Metrics with different keys do not get in each other's way. What becomes of a ledger when they are
upserted is told for each of them from the ledger before, so the order in which they come makes no
difference, nor whether their values come as numbers or as texts.
-/
namespace Telemetry

theorem Input.delta?_text (n : Int64) : delta? (.text (Value.counter n).text) = some n := by
  obtain ⟨m, hm, hmn⟩ := Option.map_eq_some_iff.1 (Value.nextValue?_text (v := .counter n) rfl)
  obtain ⟨d, hd, hsum⟩ := Option.bind_eq_some_iff.1 hm
  obtain rfl : m = n := Value.counter.inj hmn
  have hint : m.toInt = 0 + d.toInt := Text.int64?_eq_some_iff.1 hsum
  rw [hd, Int64.toInt_inj.1 (hint.trans (Int.zero_add _))]

theorem Input.reading?_text {x : Binary64} (h : x.isFinite) :
    reading? (.text (Value.gauge x).text) = some x := by
  obtain ⟨y, hy, hyx⟩ := Option.map_eq_some_iff.1 (Value.nextValue?_text (v := .gauge x) h)
  rw [hy, Value.gauge.inj hyx]

theorem upsertValue?_text {v : Value} (h : v.isFinite) (total : Int) :
    upsertValue? total (.text v.text) v.kind = upsertValue? total (.ofValue v) v.kind := by
  cases v with
  | counter n =>
    have hdelta : Input.delta? (.ofValue (.counter n)) = some n := rfl
    simp only [upsertValue?, Value.kind, Input.delta?_text, hdelta]
  | gauge x =>
    have hx : x.isFinite = true := h
    have hreading : Input.reading? (.ofValue (.gauge x)) = some x := by
      simp [Input.ofValue, Input.reading?, Input.number?, hx]
    simp only [upsertValue?, Value.kind, Input.reading?_text hx, hreading]

namespace Ledger
variable {l l' l'' : Ledger} {m item : Metric} {ms items : List Metric}

theorem apply_text (hm : m.WellFormed) (l : Ledger) :
    l.apply m.key (.text m.value.text) = l.upsert m := by
  obtain ⟨a, hc⟩ : ∃ a, l.current ⟨m.kind, m.name⟩ = .ok a := exists_current hm.name l
  have htext := apply_eq_upsertValue? hc (.text m.value.text)
  have hvalue := apply_eq_upsertValue? hc (.ofValue m.value)
  have hdisplay : Input.display (.text m.value.text) = Input.display (.ofValue m.value) :=
    (Input.display_ofValue m.value).symm
  rw [Metric.kind, upsertValue?_text hm.finite, hdisplay] at htext
  exact htext.trans hvalue.symm

theorem Sorted.nodup (h : l.Sorted) : l.Nodup :=
  h.imp fun hlt heq => Key.ne_of_lt hlt (congrArg Metric.key heq)

/-- A ledger is known by what is found in it. -/
theorem Sorted.ext_find? (h : l.Sorted) (h' : l'.Sorted) (heq : ∀ key, l.find? key = l'.find? key) :
    l = l' := by
  have hmem : ∀ a, a ∈ l ↔ a ∈ l' := by
    intro a
    have hleft : l'.find? a.key = some a ↔ a ∈ l ∧ a.key = a.key := heq a.key ▸ h.find?_eq_some_iff
    have hright : l'.find? a.key = some a ↔ a ∈ l' ∧ a.key = a.key := h'.find?_eq_some_iff
    simpa using hleft.symm.trans hright
  refine List.Perm.eq_of_pairwise ?_ h h' ((List.perm_ext_iff_of_nodup h.nodup h'.nodup).2 hmem)
  intro a b _ _ hab hba
  exact absurd (Key.lt_trans hab hba) (Key.not_lt_self _)

theorem Brings.key (h : l.Brings item m) : m.key = item.key := by cases h <;> rfl

theorem Brings.unique {m' : Metric} (h : l.Brings item m) (h' : l.Brings item m') : m = m' := by
  cases h with
  | counter hn =>
    cases h' with
    | counter hn' => rw [Int64.toInt_inj.1 (hn.trans hn'.symm)]
  | gauge => cases h'; rfl

theorem brings_put_iff {a : Metric} (hkey : a.key ≠ item.key) :
    (l.put a).Brings item m ↔ l.Brings item m := by
  have htotal : item.kind = .counter → (l.put a).total item.name = l.total item.name := by
    intro hkind
    refine total_put_of_ne fun heq => hkey (heq.trans ?_)
    rw [Metric.key, hkind]
  constructor
  · rintro (h | _)
    · exact .counter (h.trans (by rw [htotal rfl]))
    · exact .gauge
  · rintro (h | _)
    · exact .counter (h.trans (by rw [htotal rfl]))
    · exact .gauge

/-- The ledger after metrics have been upserted: each that brings something has brought it, a counter
whose sum is no 64-bit integer is as before, and so is what has another key. -/
structure Merges (l : Ledger) (ms : List Metric) (l' : Ledger) : Prop where
  valid : l'.Valid
  taken : ∀ m ∈ ms, ∀ m', l.Brings m m' → l'.find? m.key = some m'
  refused : ∀ m ∈ ms, (∀ m', ¬ l.Brings m m') → l'.find? m.key = l.find? m.key
  other : ∀ key, (∀ m ∈ ms, m.key ≠ key) → l'.find? key = l.find? key

theorem Merges.unique (h : l.Merges ms l') (h' : l.Merges ms l'') : l' = l'' := by
  refine h.valid.sorted.ext_find? h'.valid.sorted fun key => ?_
  by_cases hkey : ∃ m ∈ ms, m.key = key
  · obtain ⟨m, hm, rfl⟩ := hkey
    rcases l.brings_or_not m with ⟨m', hbrings⟩ | hnone
    · rw [h.taken m hm m' hbrings, h'.taken m hm m' hbrings]
    · rw [h.refused m hm hnone, h'.refused m hm hnone]
  · have hother : ∀ m ∈ ms, m.key ≠ key := fun m hm heq => hkey ⟨m, hm, heq⟩
    rw [h.other key hother, h'.other key hother]

theorem Merges.perm {ms' : List Metric} (h : l.Merges ms l') (hperm : ms.Perm ms') :
    l.Merges ms' l' where
  valid := h.valid
  taken m hm := h.taken m (hperm.mem_iff.2 hm)
  refused m hm := h.refused m (hperm.mem_iff.2 hm)
  other key hkey := h.other key fun m hm => hkey m (hperm.mem_iff.1 hm)

theorem Merges.nil (h : l.Valid) : l.Merges [] l := ⟨h, by simp, by simp, fun _ _ => rfl⟩

theorem Merges.cons_brings {m' : Metric} (hkeys : ∀ a ∈ ms, a.key ≠ m.key) (hm : l.Brings m m')
    (h : (l.put m').Merges ms l') : l.Merges (m :: ms) l' := by
  have hkey : ∀ a ∈ ms, m'.key ≠ a.key := fun a ha heq => hkeys a ha (heq.symm.trans hm.key)
  have hfind : ∀ a ∈ ms, (l.put m').find? a.key = l.find? a.key :=
    fun a ha => find?_put_of_ne (hkey a ha) l
  refine ⟨h.valid, List.forall_mem_cons.2 ⟨?_, ?_⟩, List.forall_mem_cons.2 ⟨?_, ?_⟩, ?_⟩
  · intro b hb
    rw [h.other m.key hkeys, ← hm.unique hb, ← hm.key, find?_put_self]
  · intro a ha b hb
    exact h.taken a ha b ((brings_put_iff (hkey a ha)).2 hb)
  · intro hnone
    exact absurd hm (hnone m')
  · intro a ha hnone
    rw [h.refused a ha fun b hb => hnone b ((brings_put_iff (hkey a ha)).1 hb), hfind a ha]
  · intro key hother
    obtain ⟨hmkey, hrest⟩ := List.forall_mem_cons.1 hother
    rw [h.other key hrest, find?_put_of_ne (hm.key ▸ hmkey)]

theorem Merges.cons_refused (hkeys : ∀ a ∈ ms, a.key ≠ m.key) (hm : ∀ m', ¬ l.Brings m m')
    (h : l.Merges ms l') : l.Merges (m :: ms) l' := by
  refine ⟨h.valid, List.forall_mem_cons.2 ⟨fun b hb => absurd hb (hm b), h.taken⟩,
    List.forall_mem_cons.2 ⟨fun _ => h.other m.key hkeys, h.refused⟩, ?_⟩
  intro key hother
  exact h.other key (List.forall_mem_cons.1 hother).2

theorem applyAll_append (as bs : List Metric) (l : Ledger) :
    (applyAll (as ++ bs) l).2 = (applyAll bs (applyAll as l).2).2 := by
  induction as generalizing l with
  | nil => rfl
  | cons a as ih =>
    rw [List.cons_append]
    cases hu : l.upsert a with
    | ok r => rw [applyAll_cons_ok hu, applyAll_cons_ok hu]; exact ih r.2
    | error e => rw [applyAll_cons_error hu, applyAll_cons_error hu]; exact ih l

theorem merges_applyAll (hl : l.Valid) (hms : ∀ m ∈ ms, m.WellFormed)
    (hkeys : (ms.map Metric.key).Nodup) : l.Merges ms (applyAll ms l).2 := by
  induction ms generalizing l with
  | nil => exact .nil hl
  | cons m ms ih =>
    obtain ⟨hm, hrest⟩ := List.forall_mem_cons.1 hms
    rw [List.map_cons, List.nodup_cons] at hkeys
    obtain ⟨hnotin, hnodup⟩ := hkeys
    have hne : ∀ a ∈ ms, a.key ≠ m.key := fun a ha heq => hnotin (heq ▸ List.mem_map_of_mem ha)
    rcases l.brings_or_not m with ⟨m', hbrings⟩ | hnone
    · have hup := upsert_of_brings hm hbrings
      rw [applyAll_cons_ok hup]
      exact .cons_brings hne hbrings (ih (hl.apply hup).2 hrest hnodup)
    · rw [applyAll_cons_error (upsert_of_not_brings hm hnone)]
      exact .cons_refused hne hnone (ih hl hrest hnodup)

end Ledger
end Telemetry
