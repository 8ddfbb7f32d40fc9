import Telemetry.Proofs.Store.DiskSteps

/-!
A save step by step, as others can see it: the lock is taken, the metrics are noted, the directories are
made, the draft is opened and written piece by piece, and then it is moved to its target. Without anything
between them the steps amount to a save.
-/
namespace Telemetry

namespace Disk
variable {d d' : Disk} {p q : Path}

@[simp] theorem set_set (d : Disk) (p : Path) (a b : Option Node) : (d.set p a).set p b = d.set p b := by
  simp [set, List.filter_filter]

theorem checkParents_eq_ok_iff :
    d.checkParents p = .ok () ↔ ∀ q ∈ p.parents, d.node? q = some .directory := by
  refine ⟨fun h => ?_, checkParents_eq_ok⟩
  unfold checkParents at h
  split at h
  · next hfind => simpa using hfind
  · cases h

theorem write_eq_ok_iff {content : Bytes} : d.write p content = .ok d' ↔
    (∀ q ∈ p.parents, d.node? q = some .directory) ∧ d.node? p ≠ some .directory ∧
      d' = d.set p (some (.file content)) := by
  constructor
  · intro h
    have hparents : ∀ q ∈ p.parents, d.node? q = some .directory := by
      rw [← checkParents_eq_ok_iff]
      cases hcheck : d.checkParents p with
      | ok _ => rfl
      | error e => simp [write, hcheck, bind, Except.bind] at h
    have hp : d.node? p ≠ some .directory := by
      intro hp
      simp [write_eq_error hparents hp] at h
    rw [write_eq_ok hparents hp] at h
    exact ⟨hparents, hp, (Except.ok.inj h).symm⟩
  · rintro ⟨hparents, hp, rfl⟩
    exact write_eq_ok hparents hp content

theorem write_of_write {a : Bytes} (h : d.write p a = .ok d') (b : Bytes) :
    d'.write p b = d.write p b := by
  obtain ⟨hparents, hp, rfl⟩ := write_eq_ok_iff.1 h
  have hne : p ≠ [] := by
    rintro rfl
    exact hp rfl
  rw [write_eq_ok hparents hp, write_eq_ok]
  · simp
  · intro q hq
    rw [node?_set_of_ne, hparents q hq]
    rintro rfl
    exact Path.not_mem_parents q hq
  · simp [node?_set_self hne]

theorem write_of_error {a : Bytes} {e : FileError} (h : d.write p a = .error e) (b : Bytes) :
    d.write p b = .error e := by
  unfold write at h ⊢
  cases hcheck : d.checkParents p with
  | error e' => simpa [hcheck, bind, Except.bind] using h
  | ok _ =>
    simp only [hcheck, bind, Except.bind] at h ⊢
    split at h
    · next hp => simpa [hp] using h
    · cases h

theorem node?_of_makeParents (h : d.makeParents p = .ok d') (hq : q ∉ p.parents) :
    d'.node? q = d.node? q := by
  by_cases hparents : ∀ q ∈ p.parents, d.isFile q = false
  · obtain ⟨d'', hmake, hnode⟩ := makeParents_eq_ok hparents
    obtain rfl : d' = d'' := Except.ok.inj (h.symm.trans hmake)
    rw [hnode, if_neg hq]
  · obtain ⟨e, he⟩ := makeParents_eq_error hparents
    simp [h] at he

theorem node?_of_rename {content : Bytes} (h : d.rename q p = .ok d')
    (hq : d.node? q = some (.file content)) : d'.node? p = some (.file content) := by
  have hparents : ∀ q ∈ p.parents, d.node? q = some .directory := by
    rw [← checkParents_eq_ok_iff]
    cases hcheck : d.checkParents p with
    | ok _ => rfl
    | error e => simp [rename, hcheck, bind, Except.bind] at h
  have hp : d.node? p ≠ some .directory := by
    intro hp
    simp [rename_eq_error hparents hq hp] at h
  have hne : p ≠ [] := by
    rintro rfl
    exact hp rfl
  rw [rename_eq_ok hparents hq hp] at h
  rw [← Except.ok.inj h, node?_set_self hne]

end Disk

/-- How far a save has come. -/
inductive Saving where
  | waiting
  | locked
  | noted (metrics : Ledger)
  | placed (metrics : Ledger)
  /-- The draft has the first `count` bytes of the dump. -/
  | writing (metrics : Ledger) (count : Nat)
  | ended (answer : Except StoreError Nat)

namespace Saving
open Ledger

/-- The next step of a save that need not wait; if it writes, `more` bytes more. -/
def step (path : Path) (more : Nat) (l : Ledger) : Saving → Disk → Saving × Disk
  | waiting, d => (locked, d)
  | locked, d => (noted l, d)
  | noted l, d =>
    match d.makeParents path with
    | .ok d' => (placed l, d')
    | .error e => (ended (.error (.file e)), d)
  | placed l, d =>
    match d.write (draftPath path) [] with
    | .ok d' => (writing l 0, d')
    | .error e => (ended (.error (.file e)), d)
  | writing l count, d =>
    if count < (Bytes.ofText (Dump.render l)).length then
      match d.write (draftPath path) ((Bytes.ofText (Dump.render l)).take (count + more)) with
      | .ok d' => (writing l (count + more), d')
      | .error e => (ended (.error (.file e)), d)
    else
      match d.rename (draftPath path) path with
      | .ok d' => (ended (.ok l.length), d')
      | .error e => (ended (.error (.file e)), d)
  | ended answer, d => (ended answer, d)

/-- The steps of a save with nothing between them; `pieces` says how much each of them writes. -/
def run (path : Path) (l : Ledger) : List Nat → Saving → Disk → Saving × Disk
  | [], stage, d => (stage, d)
  | more :: pieces, stage, d =>
    let (stage', d') := stage.step path more l d
    stage'.run path l pieces d'

section Alone
variable {path : Path} {l : Ledger} {d d' : Disk}

/-- What is on the disk at a stage of a save that began on the disk `d`. -/
def Reaches (path : Path) (l : Ledger) (d : Disk) : Saving → Disk → Prop
  | waiting, d' => d' = d
  | locked, d' => d' = d
  | noted l', d' => l' = l ∧ d' = d
  | placed l', d' => l' = l ∧ d.makeParents path = .ok d'
  | writing l' count, d' => l' = l ∧ ∃ d₁, d.makeParents path = .ok d₁ ∧
      d₁.write (draftPath path) ((Bytes.ofText (Dump.render l)).take count) = .ok d'
  | ended answer, d' => (answer, d') = l.save path d

theorem Reaches.step {stage : Saving} (h : Reaches path l d stage d') (more : Nat) :
    Reaches path l d (stage.step path more l d').1 (stage.step path more l d').2 := by
  cases stage with
  | waiting => exact h
  | locked => exact ⟨rfl, h⟩
  | noted l' =>
    obtain ⟨rfl, rfl⟩ := h
    simp only [Saving.step]
    cases hmake : d'.makeParents path with
    | ok d₁ => exact ⟨rfl, hmake⟩
    | error e => simp [Reaches, save, writeDraft, hmake, bind, Except.bind, Except.toOption]
  | placed l' =>
    obtain ⟨rfl, hmake⟩ := h
    simp only [Saving.step]
    cases hwrite : d'.write (draftPath path) [] with
    | ok d₂ => exact ⟨rfl, d', hmake, by simpa using hwrite⟩
    | error e =>
      have hsame := Disk.write_of_error hwrite (Bytes.ofText (Dump.render l'))
      simp [Reaches, save, writeDraft, hmake, hsame, bind, Except.bind, Except.toOption]
  | writing l' count =>
    obtain ⟨rfl, d₁, hmake, hwrite⟩ := h
    simp only [Saving.step]
    split
    · next hcount =>
      rw [Disk.write_of_write hwrite]
      obtain ⟨hparents, hdraft, -⟩ := Disk.write_eq_ok_iff.1 hwrite
      rw [Disk.write_eq_ok hparents hdraft]
      exact ⟨rfl, d₁, hmake, Disk.write_eq_ok hparents hdraft _⟩
    · next hcount =>
      rw [List.take_of_length_le (Nat.le_of_not_lt hcount)] at hwrite
      cases hrename : d'.rename (draftPath path) path with
      | ok d₂ => simp [Reaches, save, writeDraft, hmake, hwrite, hrename, bind, Except.bind]
      | error e => simp [Reaches, save, writeDraft, hmake, hwrite, hrename, bind, Except.bind]
  | ended answer => exact h

theorem Reaches.run {stage : Saving} (h : Reaches path l d stage d') (pieces : List Nat) :
    Reaches path l d (stage.run path l pieces d').1 (stage.run path l pieces d').2 := by
  induction pieces generalizing stage d' with
  | nil => exact h
  | cons more pieces ih => exact ih (h.step more)

/-- A save that comes to its end with nothing between its steps, whatever pieces it writes, has done and
answers what the save does in one go. -/
theorem run_eq_save {pieces : List Nat} {answer : Except StoreError Nat}
    (h : (waiting.run path l pieces d).1 = ended answer) :
    (answer, (waiting.run path l pieces d).2) = l.save path d := by
  have hreached : Reaches path l d waiting d := rfl
  have hended := hreached.run pieces
  rwa [h] at hended

theorem exists_run_eq_ended (path : Path) (l : Ledger) (d : Disk) : ∃ pieces,
    waiting.run path l pieces d = (ended (l.save path d).1, (l.save path d).2) := by
  suffices hended : ∃ pieces answer, (waiting.run path l pieces d).1 = ended answer by
    obtain ⟨pieces, answer, h⟩ := hended
    exact ⟨pieces, Prod.ext (by rw [h, ← run_eq_save h]) (by rw [← run_eq_save h])⟩
  refine ⟨List.replicate 6 (Bytes.ofText (Dump.render l)).length, ?_⟩
  simp only [List.replicate, run, step]
  cases d.makeParents path with
  | error e => exact ⟨_, rfl⟩
  | ok d₁ =>
    simp only
    cases hwrite : d₁.write (draftPath path) [] with
    | error e => exact ⟨_, rfl⟩
    | ok d₂ =>
      obtain ⟨hparents, hdraft, -⟩ := Disk.write_eq_ok_iff.1 hwrite
      simp only [Disk.write_of_write hwrite, Disk.write_eq_ok hparents hdraft]
      rcases Nat.eq_zero_or_pos (Bytes.ofText (Dump.render l)).length with hempty | hpos
      · simp only [hempty, Nat.lt_irrefl, if_false]
        cases d₂.rename (draftPath path) path <;> exact ⟨_, rfl⟩
      · simp only [hpos, if_true, Nat.zero_add, Nat.lt_irrefl, if_false]
        cases (d₁.set (draftPath path) _).rename (draftPath path) path <;> exact ⟨_, rfl⟩

end Alone

section Stages
variable {path : Path} {l : Ledger} {d d' : Disk} {stage : Saving} {more : Nat}

def isInside : Saving → Bool
  | waiting | ended _ => false
  | _ => true

def hasSucceeded : Saving → Bool
  | ended (.ok _) => true
  | _ => false

def hasFailed : Saving → Bool
  | ended (.error _) => true
  | _ => false

def metrics? : Saving → Option Ledger
  | noted l | placed l | writing l _ => some l
  | _ => none

def Drafts (path : Path) (d : Disk) : Saving → Prop
  | writing l count => d.node? (draftPath path) =
      some (.file ((Bytes.ofText (Dump.render l)).take count))
  | _ => True

theorem metrics?_step {l' : Ledger} (h : (stage.step path more l d).1.metrics? = some l') :
    stage.metrics? = some l' ∨ stage = locked ∧ l' = l := by
  cases stage with
  | waiting => simp [step, metrics?] at h
  | locked => exact .inr ⟨rfl, (Option.some.inj h).symm⟩
  | noted m =>
    simp only [step] at h
    split at h
    · exact .inl h
    · simp [metrics?] at h
  | placed m =>
    simp only [step] at h
    split at h
    · exact .inl h
    · simp [metrics?] at h
  | writing m count =>
    simp only [step] at h
    split at h
    · split at h
      · exact .inl h
      · simp [metrics?] at h
    · split at h <;> simp [metrics?] at h
  | ended answer => simp [step, metrics?] at h

theorem node?_draftPath_of_write {content : Bytes} (h : d.write (draftPath path) content = .ok d') :
    d'.node? (draftPath path) = some (.file content) := by
  obtain ⟨-, -, rfl⟩ := Disk.write_eq_ok_iff.1 h
  exact Disk.node?_set_self (by simp [draftPath, Path.withSuffix]) _

theorem node?_of_write_draftPath {content : Bytes} (h : d.write (draftPath path) content = .ok d') :
    d'.node? path = d.node? path := by
  obtain ⟨-, -, rfl⟩ := Disk.write_eq_ok_iff.1 h
  exact Disk.node?_set_of_ne (ne_draftPath path) _

theorem drafts_step (path : Path) (more : Nat) (l : Ledger) (stage : Saving) (d : Disk)
    (h : stage.Drafts path d) :
    (stage.step path more l d).1.Drafts path (stage.step path more l d).2 := by
  cases stage with
  | waiting => trivial
  | locked => trivial
  | noted m =>
    simp only [step]
    split <;> trivial
  | placed m =>
    simp only [step]
    split
    · next hwrite => exact node?_draftPath_of_write hwrite
    · trivial
  | writing m count =>
    simp only [step]
    split
    · split
      · next hwrite => exact node?_draftPath_of_write hwrite
      · trivial
    · split <;> trivial
  | ended answer => trivial

/-- The only step of a save that changes the dump is its last one if it succeeds; then the dump is what has
been noted. -/
theorem node?_step (path : Path) (more : Nat) (l : Ledger) (stage : Saving) (d : Disk)
    (hinside : stage.isInside) (h : stage.Drafts path d) :
    (stage.step path more l d).2.node? path = d.node? path ∧
      (stage.step path more l d).1.hasSucceeded = false ∨
    ∃ m, stage.metrics? = some m ∧ (stage.step path more l d).1 = ended (.ok m.length) ∧
      (stage.step path more l d).2.node? path = some (.file (Bytes.ofText (Dump.render m))) := by
  cases stage with
  | waiting => simp [isInside] at hinside
  | locked => exact .inl ⟨rfl, rfl⟩
  | noted m =>
    left
    simp only [step]
    split
    · next hmake => exact ⟨Disk.node?_of_makeParents hmake (Path.not_mem_parents path), rfl⟩
    · exact ⟨rfl, rfl⟩
  | placed m =>
    left
    simp only [step]
    split
    · next hwrite => exact ⟨node?_of_write_draftPath hwrite, rfl⟩
    · exact ⟨rfl, rfl⟩
  | writing m count =>
    simp only [step]
    split
    · left
      split
      · next hwrite => exact ⟨node?_of_write_draftPath hwrite, rfl⟩
      · exact ⟨rfl, rfl⟩
    · next hcount =>
      split
      · next hrename =>
        rw [Drafts, List.take_of_length_le (Nat.le_of_not_lt hcount)] at h
        exact .inr ⟨m, rfl, rfl, Disk.node?_of_rename hrename h⟩
      · exact .inl ⟨rfl, rfl⟩
  | ended answer => simp [isInside] at hinside

end Stages

end Saving
end Telemetry
