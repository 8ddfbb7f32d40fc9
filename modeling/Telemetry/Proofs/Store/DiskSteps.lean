import Telemetry.Store.Snapshot

/-!
Saving a dump on a disk. The save succeeds exactly if nothing is in its way, and then the dump is read
back as it was written.
-/
namespace Telemetry

namespace Path
variable {p q : Path}

theorem ne_nil_of_mem_parents (h : q ∈ p.parents) : q ≠ [] ∧ q.length < p.length := by
  obtain ⟨i, hi, rfl⟩ := List.mem_map.1 h
  have hi' := List.mem_range.1 hi
  have hlength : (p.take (i + 1)).length = i + 1 := by
    rw [List.length_take]
    omega
  refine ⟨?_, by omega⟩
  intro hnil
  simp [hnil] at hlength

theorem not_mem_parents (p : Path) : p ∉ p.parents := by
  intro hmem
  have hlt := (ne_nil_of_mem_parents hmem).2
  omega

theorem parents_withSuffix (p : Path) (suffix : String) :
    (p.withSuffix suffix).parents = p.parents := by
  have hlength : (p.withSuffix suffix).length - 1 = p.length - 1 := by simp [withSuffix]
  unfold parents
  rw [hlength]
  apply List.map_congr_left
  intro i hi
  have hi' := List.mem_range.1 hi
  rw [withSuffix, List.take_append_of_le_length (by rw [List.length_dropLast]; omega),
    List.dropLast_eq_take, List.take_take, Nat.min_eq_left (by omega)]

theorem withSuffix_ne (p : Path) {suffix : String} (hs : suffix ≠ "") : p.withSuffix suffix ≠ p := by
  intro heq
  have hlast := congrArg (List.getLastD · "") heq
  simp [withSuffix] at hlast
  exact hs hlast

end Path

namespace Disk
variable {d d' : Disk} {p q : Path}

theorem checkParents_eq_ok (h : ∀ q ∈ p.parents, d.node? q = some .directory) :
    d.checkParents p = .ok () := by
  have hfind : p.parents.find? (fun q => d.node? q ≠ some .directory) = none := by
    simpa using h
  rw [checkParents, hfind]

theorem write_eq_ok (h : ∀ q ∈ p.parents, d.node? q = some .directory)
    (hp : d.node? p ≠ some .directory) (content : Bytes) :
    d.write p content = .ok (d.set p (some (.file content))) := by
  simp [write, checkParents_eq_ok h, bind, Except.bind]

theorem write_eq_error (h : ∀ q ∈ p.parents, d.node? q = some .directory)
    (hp : d.node? p = some .directory) (content : Bytes) :
    d.write p content = .error .isADirectory := by
  simp [write, checkParents_eq_ok h, bind, Except.bind, hp]

theorem rename_eq_ok {content : Bytes} (h : ∀ q ∈ p.parents, d.node? q = some .directory)
    (hq : d.node? q = some (.file content)) (hp : d.node? p ≠ some .directory) :
    d.rename q p = .ok ((d.set q none).set p (some (.file content))) := by
  simp only [rename, checkParents_eq_ok h, bind, Except.bind, hq]
  split
  · next hnode => simp at hnode
  · next hnode => exact absurd hnode hp
  · rfl

theorem rename_eq_error {content : Bytes} (h : ∀ q ∈ p.parents, d.node? q = some .directory)
    (hq : d.node? q = some (.file content)) (hp : d.node? p = some .directory) :
    d.rename q p = .error .isADirectory := by
  simp [rename, checkParents_eq_ok h, bind, Except.bind, hq, hp]

theorem readText_of_read_error {e : FileError} (h : d.read p = .error e) : d.readText p = .error e := by
  simp [readText, h, bind, Except.bind]

theorem readText_of_read_ok {b : Bytes} (h : d.read p = .ok b) :
    d.readText p = match b.toText? with
      | some s => .ok s
      | none => .error .notUtf8 := by
  unfold readText
  rw [h]
  rfl

theorem readText_eq_ok {s : String} (h : ∀ q ∈ p.parents, d.node? q = some .directory)
    (hp : d.node? p = some (.file (Bytes.ofText s))) : d.readText p = .ok s := by
  simp [readText, read, checkParents_eq_ok h, bind, Except.bind, hp]

theorem node?_foldl_set {qs : List Path} (hqs : ∀ q ∈ qs, q ≠ []) (d : Disk) (p : Path) :
    (qs.foldl (fun d q => d.set q (some .directory)) d).node? p =
      if p ∈ qs then some .directory else d.node? p := by
  induction qs generalizing d with
  | nil => rfl
  | cons q qs ih =>
    obtain ⟨hq, hrest⟩ := List.forall_mem_cons.1 hqs
    rw [List.foldl_cons, ih hrest]
    by_cases hp : p = q
    · subst hp
      simp [node?_set_self hq]
    · simp [hp, node?_set_of_ne hp]

theorem makeParents_eq_ok (h : ∀ q ∈ p.parents, d.isFile q = false) : ∃ d', d.makeParents p = .ok d' ∧
    ∀ q, d'.node? q = if q ∈ p.parents then some .directory else d.node? q := by
  have hfind : p.parents.find? d.isFile = none := by simpa using h
  refine ⟨p.parents.foldl (fun d q => d.set q (some .directory)) d, by simp [makeParents, hfind], ?_⟩
  exact node?_foldl_set (fun q hq => (Path.ne_nil_of_mem_parents hq).1) d

theorem makeParents_eq_error (h : ¬ ∀ q ∈ p.parents, d.isFile q = false) :
    ∃ e, d.makeParents p = .error e := by
  cases hfind : p.parents.find? d.isFile with
  | none => exact absurd (by simpa using hfind) h
  | some q =>
    exact ⟨if some q = p.parents.getLast? then .alreadyExists else .notADirectory,
      by simp [makeParents, hfind]⟩

/-- Nothing on the disk is in the way of a dump: no file where it needs a directory, no directory where
it needs a file. -/
structure Admits (d : Disk) (path : Path) : Prop where
  parents : ∀ q ∈ path.parents, d.isFile q = false
  draft : d.node? (Ledger.draftPath path) ≠ some .directory
  target : d.node? path ≠ some .directory

theorem Admits.ne_nil {path : Path} (h : d.Admits path) : path ≠ [] := by
  rintro rfl
  exact h.target rfl

end Disk

namespace Ledger
variable {d : Disk} {path : Path}

theorem ne_draftPath (path : Path) : path ≠ draftPath path :=
  (Path.withSuffix_ne path (by decide)).symm

theorem parents_draftPath (path : Path) : (draftPath path).parents = path.parents :=
  Path.parents_withSuffix path _

theorem draftPath_not_mem_parents (path : Path) : draftPath path ∉ path.parents := by
  rw [← parents_draftPath path]
  exact Path.not_mem_parents _

theorem writeDraft_eq (h : ∀ q ∈ path.parents, d.isFile q = false) (dump : String) :
    ∃ d₁ : Disk, writeDraft path dump d = d₁.write (draftPath path) (Bytes.ofText dump) ∧
      (∀ q ∈ path.parents, d₁.node? q = some .directory) ∧
      ∀ q ∉ path.parents, d₁.node? q = d.node? q := by
  obtain ⟨d₁, hmake, hnode⟩ := Disk.makeParents_eq_ok h
  refine ⟨d₁, by simp [writeDraft, hmake, bind, Except.bind], ?_, ?_⟩
  · intro q hq
    rw [hnode, if_pos hq]
  · intro q hq
    rw [hnode, if_neg hq]

theorem writeDraft_eq_ok (h : ∀ q ∈ path.parents, d.isFile q = false)
    (hdraft : d.node? (draftPath path) ≠ some .directory) (dump : String) :
    ∃ d' : Disk, writeDraft path dump d = .ok d' ∧
      d'.node? (draftPath path) = some (.file (Bytes.ofText dump)) ∧
      (∀ q ∈ path.parents, d'.node? q = some .directory) ∧
      ∀ q ∉ path.parents, q ≠ draftPath path → d'.node? q = d.node? q := by
  obtain ⟨d₁, hwrite, hdirs, hothers⟩ := writeDraft_eq h dump
  have hne : draftPath path ≠ [] := by simp [draftPath, Path.withSuffix]
  have hnot := draftPath_not_mem_parents path
  rw [Disk.write_eq_ok (parents_draftPath path ▸ hdirs) (hothers _ hnot ▸ hdraft)] at hwrite
  refine ⟨_, hwrite, Disk.node?_set_self hne _, ?_, ?_⟩
  · intro q hq
    have hq' : q ≠ draftPath path := fun heq => hnot (heq ▸ hq)
    rw [Disk.node?_set_of_ne hq', hdirs q hq]
  · intro q hq hq'
    rw [Disk.node?_set_of_ne hq', hothers q hq]

/-- A save that nothing is in the way of puts the dump at its path, makes the directories on the way and
leaves no draft. -/
theorem save_eq_ok (h : d.Admits path) (l : Ledger) :
    ∃ d' : Disk, l.save path d = (.ok l.length, d') ∧
      d'.node? path = some (.file (Bytes.ofText (Dump.render l))) ∧
      d'.node? (draftPath path) = none ∧ ∀ q ∈ path.parents, d'.node? q = some .directory := by
  obtain ⟨d₁, hdraft, hfile, hdirs, hothers⟩ := writeDraft_eq_ok h.parents h.draft (Dump.render l)
  have hnot := Path.not_mem_parents path
  have hne := ne_draftPath path
  have hdraftNe : draftPath path ≠ [] := by simp [draftPath, Path.withSuffix]
  have htarget : d₁.node? path ≠ some .directory := by
    rw [hothers path hnot hne]
    exact h.target
  have hrename := Disk.rename_eq_ok hdirs hfile htarget
  refine ⟨(d₁.set (draftPath path) none).set path (some (.file (Bytes.ofText (Dump.render l)))),
    by simp only [save, hdraft, hrename], Disk.node?_set_self h.ne_nil _, ?_, ?_⟩
  · rw [Disk.node?_set_of_ne hne.symm, Disk.node?_set_self hdraftNe]
  · intro q hq
    have hpath : q ≠ path := fun heq => hnot (heq ▸ hq)
    have hdraft' : q ≠ draftPath path := fun heq => draftPath_not_mem_parents path (heq ▸ hq)
    rw [Disk.node?_set_of_ne hpath, Disk.node?_set_of_ne hdraft', hdirs q hq]

theorem save_of_admits (h : d.Admits path) (l : Ledger) :
    ∃ d', l.save path d = (.ok l.length, d') ∧ d'.readText path = .ok (Dump.render l) := by
  obtain ⟨d', hsave, hfile, -, hdirs⟩ := save_eq_ok h l
  exact ⟨d', hsave, Disk.readText_eq_ok hdirs hfile⟩

theorem admits_save (h : d.Admits path) (l : Ledger) : (l.save path d).2.Admits path := by
  obtain ⟨d', hsave, hfile, hdraft, hdirs⟩ := save_eq_ok h l
  rw [hsave]
  constructor
  · intro q hq
    simp [Disk.isFile, hdirs q hq]
  · simp [hdraft]
  · simp [hfile]

theorem save_of_not_admits (h : ¬ d.Admits path) (l : Ledger) :
    ∃ e, (l.save path d).1 = .error (.file e) := by
  by_cases hparents : ∀ q ∈ path.parents, d.isFile q = false
  · by_cases hdraft : d.node? (draftPath path) = some .directory
    · obtain ⟨d₁, hwrite, hdirs, hothers⟩ := writeDraft_eq hparents (Dump.render l)
      rw [Disk.write_eq_error (parents_draftPath path ▸ hdirs)
        (hothers _ (draftPath_not_mem_parents path) ▸ hdraft)] at hwrite
      exact ⟨.isADirectory, by simp only [save, hwrite]⟩
    · obtain ⟨d₁, hwrite, hfile, hdirs, hothers⟩ := writeDraft_eq_ok hparents hdraft (Dump.render l)
      have htarget : d.node? path = some .directory :=
        Decidable.byContradiction fun htarget => h ⟨hparents, hdraft, htarget⟩
      rw [← hothers path (Path.not_mem_parents path) (ne_draftPath path)] at htarget
      have hrename := Disk.rename_eq_error hdirs hfile htarget
      exact ⟨.isADirectory, by simp only [save, hwrite, hrename]⟩
  · obtain ⟨e, hmake⟩ := Disk.makeParents_eq_error hparents
    exact ⟨e, by simp [save, writeDraft, hmake, bind, Except.bind]⟩

end Ledger
end Telemetry
