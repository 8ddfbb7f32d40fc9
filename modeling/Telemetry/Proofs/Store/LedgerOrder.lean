import Telemetry.Proofs.Metric.WellFormed
import Telemetry.Store.Ledger

/-!
The keys of metrics are in a strict order and a ledger keeps them increasing, whatever is done to it.
So each key stands in a ledger once, and putting a metric whose key is there replaces one entry: of metrics
that are put in one after another the last one with a key is found.
-/
namespace Telemetry

namespace Key

theorem lt_iff {a b : Key} :
    a.lt b ↔ a.kind.rank < b.kind.rank ∨ a.kind = b.kind ∧ a.name < b.name := by
  simp [lt]

theorem not_lt_self (a : Key) : ¬ a.lt a := by
  rw [lt_iff]
  rintro (h | ⟨-, h⟩)
  · exact Nat.lt_irrefl _ h
  · exact String.lt_irrefl _ h

theorem lt_trans {a b c : Key} (hab : a.lt b) (hbc : b.lt c) : a.lt c := by
  rw [lt_iff] at hab hbc ⊢
  rcases hab with hab | ⟨hk, hab⟩
  · rcases hbc with hbc | ⟨hk', -⟩
    · exact .inl (Nat.lt_trans hab hbc)
    · exact .inl (hk' ▸ hab)
  · rcases hbc with hbc | ⟨hk', hbc⟩
    · exact .inl (hk ▸ hbc)
    · exact .inr ⟨hk.trans hk', String.lt_trans hab hbc⟩

theorem ne_of_lt {a b : Key} (h : a.lt b) : a ≠ b := by
  rintro rfl
  exact not_lt_self a h

theorem lt_of_not_lt {a b : Key} (hne : a ≠ b) (h : ¬ b.lt a) : a.lt b := by
  obtain ⟨k, s⟩ := a
  obtain ⟨k', s'⟩ := b
  rw [lt_iff] at h ⊢
  have hs : ¬ s' < s → s ≠ s' → s < s' := by
    intro hle hs
    by_cases hlt : s < s'
    · exact hlt
    · exact absurd (String.le_antisymm hle hlt) hs
  cases k <;> cases k' <;> simp_all [Kind.rank]

end Key

namespace Ledger

def Sorted (l : Ledger) : Prop := l.Pairwise fun a b => a.key.lt b.key

theorem mem_of_mem_put {m a : Metric} {l : Ledger} (h : a ∈ l.put m) : a = m ∨ a ∈ l := by
  induction l with
  | nil => simpa [put] using h
  | cons b l ih =>
    simp only [put] at h
    split at h
    · rcases List.mem_cons.1 h with h | h
      · exact .inl h
      · exact .inr (List.mem_cons_of_mem _ h)
    · split at h
      · exact List.mem_cons.1 h
      · rcases List.mem_cons.1 h with h | h
        · exact .inr (h ▸ List.mem_cons_self)
        · exact (ih h).imp_right (List.mem_cons_of_mem _)

theorem Sorted.put {l : Ledger} (h : l.Sorted) (m : Metric) : (l.put m).Sorted := by
  induction l with
  | nil => exact List.pairwise_singleton _ _
  | cons a l ih =>
    have hp := List.pairwise_cons.1 h
    simp only [Ledger.put]
    split
    · next heq => exact List.pairwise_cons.2 ⟨fun b hb => heq ▸ hp.1 b hb, hp.2⟩
    · next hne =>
      split
      · next hlt =>
        refine List.pairwise_cons.2 ⟨?_, h⟩
        intro b hb
        rcases List.mem_cons.1 hb with rfl | hb
        · exact hlt
        · exact Key.lt_trans hlt (hp.1 b hb)
      · next hlt =>
        refine List.pairwise_cons.2 ⟨?_, ih hp.2⟩
        intro b hb
        rcases mem_of_mem_put hb with rfl | hb
        · exact Key.lt_of_not_lt hne hlt
        · exact hp.1 b hb

theorem mem_of_find? {l : Ledger} {key : Key} {m : Metric} (h : l.find? key = some m) : m ∈ l :=
  List.mem_of_find?_eq_some h

theorem find?_put_isSome {l : Ledger} {key : Key} (m : Metric) (h : (l.find? key).isSome) :
    ((l.put m).find? key).isSome := by
  by_cases hk : m.key = key
  · subst hk
    simp [find?_put_self]
  · rwa [find?_put_of_ne hk]

theorem Sorted.find?_eq_some_iff {l : Ledger} (h : l.Sorted) {m : Metric} {key : Key} :
    l.find? key = some m ↔ m ∈ l ∧ m.key = key := by
  refine ⟨fun hm => ⟨mem_of_find? hm, key_of_find? hm⟩, ?_⟩
  rintro ⟨hm, rfl⟩
  induction l with
  | nil => simp at hm
  | cons a l ih =>
    have hp := List.pairwise_cons.1 h
    rcases List.mem_cons.1 hm with rfl | hm
    · simp [find?]
    · have hne : a.key ≠ m.key := Key.ne_of_lt (hp.1 m hm)
      rw [find?, List.find?_cons_of_neg (by simpa using hne)]
      exact ih hp.2 hm

theorem Sorted.put_eq_map {l : Ledger} (h : l.Sorted) {m a : Metric} (ha : a ∈ l)
    (hk : a.key = m.key) : l.put m = l.map fun b => if b.key = m.key then m else b := by
  induction l with
  | nil => simp at ha
  | cons b l ih =>
    have hp := List.pairwise_cons.1 h
    have hrest : ∀ c ∈ l, b.key.lt c.key := hp.1
    simp only [Ledger.put]
    split
    · next hb =>
      have hmap : (l.map fun c => if c.key = m.key then m else c) = l.map id :=
        List.map_congr_left fun c hc => if_neg fun hc' =>
          Key.ne_of_lt (hrest c hc) (hb.trans hc'.symm)
      simp [hb, hmap]
    · next hb =>
      rcases List.mem_cons.1 ha with rfl | ha
      · exact absurd hk hb
      · have hlt : ¬ m.key.lt b.key := fun hlt =>
          Key.not_lt_self _ (Key.lt_trans hlt (hk ▸ hrest a ha))
        simp [hb, hlt, ih hp.2 ha]

theorem Sorted.put_of_find? {l : Ledger} (h : l.Sorted) {m : Metric}
    (hm : l.find? m.key = some m) : l.put m = l := by
  have hmap : (l.map fun b => if b.key = m.key then m else b) = l.map id := by
    refine List.map_congr_left fun b hb => ?_
    by_cases hk : b.key = m.key
    · have hb' : l.find? m.key = some b := h.find?_eq_some_iff.2 ⟨hb, hk⟩
      simp [hk, Option.some.inj (hm.symm.trans hb')]
    · simp [hk]
  rw [h.put_eq_map (mem_of_find? hm) rfl, hmap, List.map_id]

theorem put_put {a m : Metric} (h : a.key = m.key) (l : Ledger) : (l.put a).put m = l.put m := by
  induction l with
  | nil => simp [put, h]
  | cons b l ih =>
    simp only [put, h]
    by_cases heq : b.key = m.key
    · simp [heq, put, h]
    · by_cases hlt : m.key.lt b.key
      · simp [heq, hlt, put, h]
      · simp [heq, hlt, put, ih]

theorem put_eq_append {l : Ledger} {m : Metric} (h : ∀ a ∈ l, a.key.lt m.key) :
    l.put m = l ++ [m] := by
  induction l with
  | nil => rfl
  | cons a l ih =>
    have ha : a.key.lt m.key := h a List.mem_cons_self
    have hnot : ¬ m.key.lt a.key := fun hlt => Key.not_lt_self _ (Key.lt_trans ha hlt)
    simp only [Ledger.put, if_neg (Key.ne_of_lt ha), if_neg hnot, List.cons_append]
    rw [ih fun b hb => h b (List.mem_cons_of_mem _ hb)]

theorem foldl_put_of_sorted {l ms : Ledger} (h : Sorted (l ++ ms)) :
    ms.foldl (fun l m => l.put m) l = l ++ ms := by
  induction ms generalizing l with
  | nil => simp
  | cons m ms ih =>
    have hlast : ∀ a ∈ l, a.key.lt m.key := fun a ha =>
      (List.pairwise_append.1 h).2.2 a ha m List.mem_cons_self
    have happ : l ++ m :: ms = (l ++ [m]) ++ ms := by simp
    rw [List.foldl_cons, put_eq_append hlast, ih (happ ▸ h), happ]

def last? (key : Key) (ms : List Metric) : Option Metric := ms.reverse.find? fun m => m.key = key

section Last
variable {key : Key} {m : Metric} {ms : List Metric}

theorem last?_append (key : Key) (ms ms' : List Metric) :
    last? key (ms ++ ms') = (last? key ms').or (last? key ms) := by
  rw [last?, List.reverse_append, List.find?_append]
  rfl

theorem last?_singleton_self (m : Metric) : last? m.key [m] = some m := by simp [last?]

theorem last?_eq_none (h : ∀ m ∈ ms, m.key ≠ key) : last? key ms = none := by
  rw [last?, List.find?_eq_none]
  intro m hm
  simpa using h m (List.mem_reverse.1 hm)

/-- Of metrics that are put in one after another the last with a key is found. -/
theorem find?_foldl_put (ms : List Metric) (l : Ledger) (key : Key) :
    find? (ms.foldl (fun l m => l.put m) l) key = (last? key ms).or (l.find? key) := by
  induction ms generalizing l with
  | nil => rfl
  | cons m ms ih =>
    rw [List.foldl_cons, ih, ← List.singleton_append, last?_append, Option.or_assoc]
    congr 1
    by_cases hkey : m.key = key
    · rw [← hkey, last?_singleton_self, find?_put_self]
      rfl
    · rw [find?_put_of_ne hkey, last?_eq_none (by simpa using hkey)]
      rfl

end Last

end Ledger
end Telemetry
