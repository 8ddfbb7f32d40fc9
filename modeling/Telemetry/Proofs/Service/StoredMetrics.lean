import Telemetry.Proofs.Metric.Names
import Telemetry.Proofs.Metric.Reports
import Telemetry.Proofs.Store.BackendAgreement
import Telemetry.Proofs.Store.Totals
import Telemetry.Service.Basic

/-!
What is in a store. However operations, requests whose steps come between one another, saves, restores and
changes of the disk by others follow one another, a store that starts empty holds well-formed metrics, each
under its own key, lists them in order and finds what it lists; and a key that is there stays there.
-/
namespace Telemetry

namespace Metric

/-- Counters come before gauges, and metrics of one kind are in the order of the octets of their names. -/
def Precedes (a b : Metric) : Prop :=
  a.kind = .counter ∧ b.kind = .gauge ∨ a.kind = b.kind ∧ Bytes.ofText a.name < Bytes.ofText b.name

theorem precedes_of_lt {a b : Metric} (ha : a.WellFormed) (hb : b.WellFormed) (h : a.key.lt b.key) :
    a.Precedes b := by
  rcases Key.lt_iff.1 h with hrank | ⟨hkind, hname⟩
  · left
    have hrank : a.kind.rank < b.kind.rank := hrank
    cases hka : a.kind with
    | gauge => cases hkb : b.kind <;> rw [hka, hkb] at hrank <;> simp [Kind.rank] at hrank
    | counter =>
      cases hkb : b.kind with
      | counter => simp [hka, hkb] at hrank
      | gauge => exact ⟨rfl, rfl⟩
  · exact .inr ⟨hkind, Bytes.ofText_lt_of_ascii (ascii_of_isName ha.name) (ascii_of_isName hb.name) hname⟩

end Metric

namespace Store

/-- A store holds these metrics, in this order, each under its own key. -/
structure Lists (s : Store) (ms : List Metric) : Prop where
  all : backend.all s = .ok ms
  stored : (s.rows.map fun r => (r.type, r.name)) = ms.map fun m => (m.kind.text, m.name)
  order : ms.Pairwise Metric.Precedes
  names : ∀ m ∈ ms, IsSpelledAsName m.name
  totals : ∀ m ∈ ms, ∀ n, m.value = .counter n →
    Int64.minValue.toInt ≤ n.toInt ∧ n.toInt ≤ Int64.maxValue.toInt
  readings : ∀ m ∈ ms, ∀ x, m.value = .gauge x → x.isFinite
  found : ∀ key m, backend.retrieve key s = .ok m ↔ m ∈ ms ∧ m.key = key
  missing : ∀ key, backend.retrieve key s = .error (.notFound key) ↔ ∀ m ∈ ms, m.key ≠ key

section
variable {l : Ledger} {s : Store}

theorem key_kept (s : Store) (m : Metric) : (s.kept m).key = m.key := by
  cases s with
  | memory l => rfl
  | file path l => rfl
  | table t => exact congrArg (Key.mk · m.name) m.kind_dropZeroSign

theorem Holds.all_eq (hs : s.Holds l) (h : l.Valid) : backend.all s = .ok (l.map s.kept) := by
  have hself : l.map (fun m => m) = l := List.map_id' l
  cases hs with
  | memory => exact congrArg Except.ok hself.symm
  | file path => exact congrArg Except.ok hself.symm
  | table => exact Ledger.all_image h.wellFormed

theorem Holds.keys_rows (hs : s.Holds l) :
    (s.rows.map fun r => (r.type, r.name)) = l.map fun m => (m.kind.text, m.name) := by
  cases hs with
  | memory => exact List.map_map
  | file path => exact List.map_map
  | table => exact List.map_map

theorem Holds.retrieve_eq (hs : s.Holds l) (h : l.Valid) (key : Key) :
    backend.retrieve key s = (l.retrieve key).map s.kept :=
  (congrArg _ hs.refill_eq.symm).trans (retrieve_refill h s key)

theorem Holds.lists (hs : s.Holds l) (h : l.Valid) : s.Lists (l.map s.kept) := by
  have hwell : ∀ m ∈ l.map s.kept, m.WellFormed := by
    intro m hm
    obtain ⟨a, ha, rfl⟩ := List.mem_map.1 hm
    exact s.wellFormed_kept (h.wellFormed a ha)
  have hkeys : ∀ key, (∀ m ∈ l.map s.kept, m.key ≠ key) ↔ l.find? key = none := by
    intro key
    simp [Ledger.find?, key_kept]
  refine ⟨hs.all_eq h, ?_, ?_, fun m hm => isName_iff.1 (hwell m hm).name,
    fun m hm n hn => ⟨n.minValue_le_toInt, n.toInt_le⟩, ?_, ?_, ?_⟩
  · rw [hs.keys_rows, List.map_map]
    refine List.map_congr_left fun m _ => ?_
    exact congrArg (fun key : Key => (key.kind.text, key.name)) (s.key_kept m).symm
  · rw [List.pairwise_map]
    refine h.sorted.imp_of_mem fun {a b} ha hb hlt => ?_
    refine Metric.precedes_of_lt (s.wellFormed_kept (h.wellFormed a ha))
      (s.wellFormed_kept (h.wellFormed b hb)) ?_
    rwa [s.key_kept, s.key_kept]
  · intro m hm x hx
    have hfinite := (hwell m hm).finite
    rwa [hx] at hfinite
  · intro key m
    rw [hs.retrieve_eq h, Ledger.retrieve]
    constructor
    · intro hm
      cases hf : l.find? key with
      | none => simp [hf, Except.map] at hm
      | some a =>
        obtain rfl : s.kept a = m := by simpa [hf, Except.map] using hm
        obtain ⟨ha, hkey⟩ := h.sorted.find?_eq_some_iff.1 hf
        exact ⟨List.mem_map_of_mem ha, (s.key_kept a).trans hkey⟩
    · rintro ⟨hm, hkey⟩
      obtain ⟨a, ha, rfl⟩ := List.mem_map.1 hm
      rw [s.key_kept] at hkey
      rw [h.sorted.find?_eq_some_iff.2 ⟨ha, hkey⟩]
      rfl
  · intro key
    rw [hkeys, hs.retrieve_eq h, Ledger.retrieve]
    cases hf : l.find? key with
    | none => simp [Except.map]
    | some a => simp [Except.map]

end
end Store

namespace Service
variable {l : Ledger} {s : Store}

/-- The metrics that an update may yet add can be built. -/
def Stage.Sound : Stage → Prop
  | updating fresh _ => fresh.WellFormed
  | adding m _ => m.WellFormed
  | updatingAgain _ _ => True
  | done _ => True

theorem Stage.sound_start (kind name : String) (i : Input) : (Stage.start kind name i).Sound := by
  unfold Stage.start
  split
  · next fresh hp => exact Metric.wellFormed_of_fresh (Metric.fresh_of_parse hp).2.2
  · trivial

theorem Stage.Sound.step {stage : Stage} (h : stage.Sound) (hs : s.Holds l) (hl : l.Valid) :
    (stage.step Store.backend s).1.Sound ∧
      ∃ l' : Ledger, l.Extends l' ∧ (stage.step Store.backend s).2.Holds l' := by
  cases stage with
  | updating fresh i =>
    have hstore := hs.step hl (.update fresh.key i)
    simp only [Backend.perform, Prod.map] at hstore
    simp only [Stage.step]
    split
    · next hu => exact ⟨trivial, by simpa [hu] using hstore⟩
    · next hu =>
      split
      · next m hm => exact ⟨Metric.WellFormed.update h hm, by simpa [hu] using hstore⟩
      · exact ⟨trivial, by simpa [hu] using hstore⟩
    · next hu => exact ⟨trivial, by simpa [hu] using hstore⟩
  | adding m i =>
    have hstore := hs.step hl (.add m h)
    simp only [Backend.perform, Prod.map] at hstore
    simp only [Stage.step]
    split
    · next hadd => exact ⟨trivial, by simpa [hadd] using hstore⟩
    · next hadd => exact ⟨trivial, by simpa [hadd] using hstore⟩
    · next hadd => exact ⟨trivial, by simpa [hadd] using hstore⟩
  | updatingAgain key i =>
    have hstore := hs.step hl (.update key i)
    simp only [Backend.perform, Prod.map] at hstore
    simp only [Stage.step]
    split
    · next hu => exact ⟨trivial, by simpa [hu] using hstore⟩
    · next hu => exact ⟨trivial, by simpa [hu] using hstore⟩
  | done answer => exact ⟨trivial, l, .refl hl, hs⟩

theorem Stage.Sound.run {stage : Stage} (h : stage.Sound) (hs : s.Holds l) (hl : l.Valid) (n : Nat) :
    ∃ l' : Ledger, l.Extends l' ∧ (stage.run Store.backend n s).2.Holds l' := by
  induction n generalizing stage s l with
  | zero => exact ⟨l, .refl hl, hs⟩
  | succ n ih =>
    obtain ⟨hstage, l', hl', hs'⟩ := h.step hs hl
    obtain ⟨l'', hl'', hs''⟩ := ih hstage hs' hl'.valid
    exact ⟨l'', hl'.trans hl'', hs''⟩

theorem holds_updateByValue (hs : s.Holds l) (hl : l.Valid) (kind name : String) (i : Input) :
    ∃ l' : Ledger, l.Extends l' ∧ (updateByValue Store.backend kind name i s).2.Holds l' :=
  (Stage.sound_start kind name i).run hs hl 3

theorem holds_update (hs : s.Holds l) (hl : l.Valid) (r : Report) :
    ∃ l' : Ledger, l.Extends l' ∧ (update Store.backend r s).2.Holds l' := by
  unfold update
  split
  · exact ⟨l, .refl hl, hs⟩
  · exact holds_updateByValue hs hl _ _ _

theorem holds_updateAll (hs : s.Holds l) (hl : l.Valid) (rs : List Report) :
    ∃ l' : Ledger, l.Extends l' ∧ (updateAll Store.backend rs s).2.Holds l' := by
  unfold updateAll
  split
  · exact ⟨l, .refl hl, hs⟩
  · next items hitems =>
    have hstore := hs.step hl (.updateBatch items (Report.wellFormed_of_mapM_toMetric hitems))
    simp only [Backend.perform, Prod.map] at hstore
    split
    · next hbatch => simpa [hbatch] using hstore
    · next hbatch => simpa [hbatch] using hstore

end Service

/-- A store, the disk with its dump, and the updates that are under way. -/
structure Host where
  store : Store
  disk : Disk := {}
  calls : List Service.Stage := []

namespace Host

inductive Event where
  | perform (op : Operation)
  /-- An update by value begins, and its steps are to follow. -/
  | call (kind name : String) (i : Input)
  /-- An update that is under way does its next step. -/
  | proceed (index : Nat)
  | updateByValue (kind name : String) (i : Input)
  | update (r : Report)
  | updateAll (rs : List Report)
  | save
  | restore
  /-- Others change the disk. -/
  | disturb (disk : Disk)

/-- What an event does. Only a store with a dump file is saved and restored. -/
def happen (h : Host) : Event → Host
  | .perform op => { h with store := (Store.backend.perform op h.store).2 }
  | .call kind name i => { h with calls := h.calls ++ [.start kind name i] }
  | .proceed index =>
    match h.calls[index]? with
    | none => h
    | some stage =>
      let (stage', store) := stage.step Store.backend h.store
      { h with store, calls := h.calls.set index stage' }
  | .updateByValue kind name i =>
    { h with store := (Service.updateByValue Store.backend kind name i h.store).2 }
  | .update r => { h with store := (Service.update Store.backend r h.store).2 }
  | .updateAll rs => { h with store := (Service.updateAll Store.backend rs h.store).2 }
  | .save =>
    match h.store with
    | .file path l => { h with disk := (l.save path h.disk).2 }
    | _ => h
  | .restore =>
    match h.store with
    | .file path l => { h with store := .file path (Ledger.restore path h.disk l).2 }
    | _ => h
  | .disturb disk => { h with disk }

def run (h : Host) (events : List Event) : Host := events.foldl happen h

/-- The store holds a valid ledger, and the updates under way will keep it so. -/
structure Sound (h : Host) (l : Ledger) : Prop where
  valid : l.Valid
  holds : h.store.Holds l
  calls : ∀ stage ∈ h.calls, stage.Sound

variable {h : Host} {l : Ledger}

theorem Sound.of_store (hh : h.Sound l) {store : Store} (disk : Disk)
    (hstore : ∃ l' : Ledger, l.Extends l' ∧ store.Holds l') :
    ∃ l' : Ledger, l.Extends l' ∧ Sound { h with store, disk } l' := by
  obtain ⟨l', hl', hs⟩ := hstore
  exact ⟨l', hl', hl'.valid, hs, hh.calls⟩

/-- Every event leaves a sound host, whose store has the keys that it had. -/
theorem Sound.happen (hh : h.Sound l) (e : Event) : ∃ l' : Ledger, l.Extends l' ∧ (h.happen e).Sound l' := by
  cases e with
  | perform op => exact hh.of_store h.disk (hh.holds.step hh.valid op)
  | call kind name i =>
    refine ⟨l, .refl hh.valid, hh.valid, hh.holds, fun stage hstage => ?_⟩
    rcases List.mem_append.1 hstage with hstage | hstage
    · exact hh.calls stage hstage
    · exact List.mem_singleton.1 hstage ▸ Service.Stage.sound_start kind name i
  | proceed index =>
    simp only [Host.happen]
    split
    · exact ⟨l, .refl hh.valid, hh⟩
    · next stage hstage =>
      obtain ⟨hnext, l', hl', hs⟩ := (hh.calls stage (List.mem_of_getElem? hstage)).step hh.holds hh.valid
      refine ⟨l', hl', hl'.valid, hs, fun other hother => ?_⟩
      rcases List.mem_or_eq_of_mem_set hother with hother | rfl
      · exact hh.calls other hother
      · exact hnext
  | updateByValue kind name i =>
    exact hh.of_store h.disk (Service.holds_updateByValue hh.holds hh.valid kind name i)
  | update r => exact hh.of_store h.disk (Service.holds_update hh.holds hh.valid r)
  | updateAll rs => exact hh.of_store h.disk (Service.holds_updateAll hh.holds hh.valid rs)
  | save =>
    simp only [Host.happen]
    split
    · exact hh.of_store _ ⟨l, .refl hh.valid, hh.holds⟩
    · exact ⟨l, .refl hh.valid, hh⟩
  | restore =>
    simp only [Host.happen]
    split
    · next path l' hstore =>
      have hholds := hh.holds
      rw [hstore] at hholds
      cases hholds
      exact hh.of_store h.disk ⟨_, hh.valid.extends_restore path h.disk, .file path⟩
    · exact ⟨l, .refl hh.valid, hh⟩
  | disturb disk => exact hh.of_store disk ⟨l, .refl hh.valid, hh.holds⟩

theorem Sound.run (hh : h.Sound l) (events : List Event) :
    ∃ l' : Ledger, l.Extends l' ∧ (h.run events).Sound l' := by
  induction events generalizing h l with
  | nil => exact ⟨l, .refl hh.valid, hh⟩
  | cons e events ih =>
    obtain ⟨l', hl', hh'⟩ := hh.happen e
    obtain ⟨l'', hl'', hh''⟩ := ih hh'
    exact ⟨l'', hl'.trans hl'', hh''⟩

/-- Whatever happens, a store that starts empty lists well-formed metrics in order and finds exactly these,
each under its own key; and a metric that is there stays there, under its key and with its kind. -/
theorem store_lists (hstore : h.store.IsEmpty) (hcalls : h.calls = []) (events later : List Event) :
    (∃ ms, (h.run events).store.Lists ms) ∧
      ∀ key m, Store.backend.retrieve key (h.run events).store = .ok m →
        ∃ m', Store.backend.retrieve key (h.run (events ++ later)).store = .ok m' ∧
          m'.key = key ∧ m'.kind = m.kind := by
  have hsound : h.Sound [] := ⟨.nil, hstore.holds, by simp [hcalls]⟩
  obtain ⟨l, -, hl⟩ := hsound.run events
  obtain ⟨l', hl', hlater⟩ := hl.run later
  have hlists := hl.holds.lists hl.valid
  have hlists' := hlater.holds.lists hlater.valid
  refine ⟨⟨_, hlists⟩, fun key m hm => ?_⟩
  obtain ⟨-, hkey⟩ := (hlists.found key m).1 hm
  have hsome : (l.find? key).isSome := by
    rw [hl.holds.retrieve_eq hl.valid, Ledger.retrieve] at hm
    cases hf : l.find? key with
    | none => simp [hf, Except.map] at hm
    | some a => rfl
  obtain ⟨a, ha⟩ := Option.isSome_iff_exists.1 (hl'.keys key hsome)
  have hfound := hlater.holds.retrieve_eq hlater.valid key
  rw [Ledger.retrieve, ha] at hfound
  obtain ⟨-, hkey'⟩ := (hlists'.found key _).1 hfound
  rw [run, List.foldl_append]
  exact ⟨_, hfound, hkey', (congrArg Key.kind hkey').trans (congrArg Key.kind hkey).symm⟩

def newHost : Host where
  store := .file ["dump"] []
  disk := ⟨[(["dump"], some (.file (Bytes.ofText "load:gauge:1e400\n")))]⟩

/-- A dump that can be read, in another order than that of a store. -/
def unordered : Disk := ⟨[(["dump"], some (.file (Bytes.ofText "load:gauge:-0.5\nhits:counter:5\n")))]⟩

/-- Two restores, of which the first fails, an update whose steps stand apart, and a bad name. -/
def mixedEvents : List Event :=
  [.restore, .disturb unordered, .restore, .call "counter" "load" (.int 1), .proceed 0, .save,
    .updateByValue "gauge" "2nd" (.int 1), .proceed 0, .update ⟨"load", .gauge, none, some (.zero true)⟩]

theorem store_lists_mixedEvents : ∃ ms, (newHost.run mixedEvents).store.Lists ms ∧
    ms.map Metric.key = [⟨.counter, "hits"⟩, ⟨.counter, "load"⟩, ⟨.gauge, "load"⟩] := by
  obtain ⟨⟨ms, hlists⟩, -⟩ := store_lists (h := newHost) (.file ["dump"]) rfl mixedEvents []
  have hkeys : (Store.backend.all (newHost.run mixedEvents).store).map (List.map Metric.key) =
      .ok [⟨.counter, "hits"⟩, ⟨.counter, "load"⟩, ⟨.gauge, "load"⟩] := by decide +kernel
  rw [hlists.all] at hkeys
  exact ⟨ms, hlists, Except.ok.inj hkeys⟩

end Host
end Telemetry
