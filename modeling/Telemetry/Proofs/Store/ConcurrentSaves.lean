import Mathlib.Logic.Function.Basic
import Mathlib.Tactic.Choose
import Telemetry.Proofs.Store.Operation
import Telemetry.Proofs.Store.SaveSteps

/-!
Many tasks on one store with a dump: each of them works on the metrics and saves, one after the other, and
the steps of all of them come in any order. A lock lets only one save at a time do its steps, from before
it notes the metrics until it has moved its draft or failed. So the dump is always what some save has
noted, and later dumps come from later metrics.
-/
namespace Telemetry

/-- Tasks on one store. A task that has worked on the metrics has no save yet; otherwise its save has come
so far. -/
structure SharedDump (n : Nat) where
  metrics : Ledger
  disk : Disk
  holder : Option (Fin n)
  tasks : Fin n → Option Saving

namespace SharedDump
open Ledger

inductive Event (n : Nat) where
  /-- A task that is not amid a save works on the metrics. -/
  | operate (i : Fin n) (op : Operation)
  /-- A task that is not amid a save begins one. -/
  | save (i : Fin n)
  /-- A save does its next step, if it has the lock or gets it. -/
  | advance (i : Fin n) (more : Nat)
  /-- A step of a save fails. -/
  | fail (i : Fin n) (e : FileError)

variable {n : Nat}

def isIdle (s : SharedDump n) (i : Fin n) : Bool :=
  match s.tasks i with
  | none | some (.ended _) => true
  | _ => false

def hasSaved (s : SharedDump n) (i : Fin n) : Bool := (s.tasks i).any Saving.hasSucceeded

def hasFailed (s : SharedDump n) (i : Fin n) : Bool := (s.tasks i).any Saving.hasFailed

/-- The task comes to a stage of its save, which leaves the disk so. The lock is held from the first stage
inside to the last. -/
def enter (s : SharedDump n) (i : Fin n) (stage : Saving) (disk : Disk) : SharedDump n where
  metrics := s.metrics
  disk := disk
  holder := if stage.isInside then some i else none
  tasks := Function.update s.tasks i (some stage)

def step (path : Path) (s : SharedDump n) : Event n → SharedDump n
  | .operate i op =>
    if s.isIdle i then
      { s with metrics := (Ledger.backend.perform op s.metrics).2,
               tasks := Function.update s.tasks i none }
    else s
  | .save i =>
    if s.isIdle i then { s with tasks := Function.update s.tasks i (some .waiting) } else s
  | .advance i more =>
    match s.tasks i with
    | none => s
    | some .waiting => if s.holder = none then s.enter i .locked s.disk else s
    | some stage =>
      if s.holder = some i then
        let (stage', disk) := stage.step path more s.metrics s.disk
        s.enter i stage' disk
      else s
  | .fail i e => if s.holder = some i then s.enter i (.ended (.error (.file e))) s.disk else s

def after (path : Path) (events : Nat → Event n) (s : SharedDump n) : Nat → SharedDump n
  | 0 => s
  | t + 1 => (s.after path events t).step path (events t)

structure IsQuiet (s : SharedDump n) : Prop where
  holder : s.holder = none
  tasks : ∀ i, s.tasks i = none

section Steps
variable {path : Path} {s : SharedDump n} {i j : Fin n} {stage : Saving} {disk : Disk}

@[simp] theorem tasks_enter_self (s : SharedDump n) (i : Fin n) (stage : Saving) (disk : Disk) :
    (s.enter i stage disk).tasks i = some stage := Function.update_self ..

theorem tasks_enter_of_ne (h : j ≠ i) (s : SharedDump n) (stage : Saving) (disk : Disk) :
    (s.enter i stage disk).tasks j = s.tasks j := Function.update_of_ne h ..

theorem tasks_update_cases {tasks : Fin n → Option Saving} {task : Option Saving}
    (h : Function.update tasks i task j = some stage) :
    j = i ∧ task = some stage ∨ j ≠ i ∧ tasks j = some stage := by
  by_cases hj : j = i
  · subst hj
    exact .inl ⟨rfl, by rwa [Function.update_self] at h⟩
  · exact .inr ⟨hj, by rwa [Function.update_of_ne hj] at h⟩

theorem tasks_enter_cases {stage' : Saving} (h : (s.enter i stage disk).tasks j = some stage') :
    j = i ∧ stage' = stage ∨ j ≠ i ∧ s.tasks j = some stage' :=
  (tasks_update_cases h).imp_left fun ⟨hj, hstage⟩ => ⟨hj, (Option.some.inj hstage).symm⟩

/-- All that an event can do: nothing, an operation, the begin of a save, the lock taken, one step of the
save that has the lock, or its failure. -/
inductive Steps (path : Path) (s : SharedDump n) : Event n → SharedDump n → Prop
  | stay (e : Event n) : Steps path s e s
  | operate {i : Fin n} (op : Operation) (h : s.isIdle i) : Steps path s (.operate i op)
      { s with metrics := (Ledger.backend.perform op s.metrics).2,
               tasks := Function.update s.tasks i none }
  | save {i : Fin n} (h : s.isIdle i) : Steps path s (.save i)
      { s with tasks := Function.update s.tasks i (some .waiting) }
  | lock {i : Fin n} (more : Nat) (ht : s.tasks i = some .waiting) (h : s.holder = none) :
      Steps path s (.advance i more) (s.enter i .locked s.disk)
  | proceed {i : Fin n} {stage : Saving} (more : Nat) (ht : s.tasks i = some stage)
      (h : s.holder = some i) : Steps path s (.advance i more)
        (s.enter i (stage.step path more s.metrics s.disk).1 (stage.step path more s.metrics s.disk).2)
  | fail {i : Fin n} (e : FileError) (h : s.holder = some i) : Steps path s (.fail i e)
      (s.enter i (.ended (.error (.file e))) s.disk)

theorem steps_step (path : Path) (s : SharedDump n) (e : Event n) : Steps path s e (s.step path e) := by
  cases e with
  | operate i op =>
    simp only [step]
    split
    · next h => exact .operate op h
    · exact .stay _
  | save i =>
    simp only [step]
    split
    · next h => exact .save h
    · exact .stay _
  | advance i more =>
    simp only [step]
    split
    · exact .stay _
    · next ht =>
      split
      · next h => exact .lock more ht h
      · exact .stay _
    · next ht =>
      split
      · next h => exact .proceed more ht h
      · exact .stay _
  | fail i e =>
    simp only [step]
    split
    · next h => exact .fail e h
    · exact .stay _

end Steps

section Invariant
variable {path : Path} {s s' : SharedDump n} {e : Event n} {i : Fin n} {stage : Saving} {disk : Disk}

/-- Exactly the task that holds the lock is inside its save, and the draft is what it has written. -/
structure Sound (path : Path) (s : SharedDump n) : Prop where
  locked : ∀ i, s.holder = some i ↔ ∃ stage, s.tasks i = some stage ∧ stage.isInside
  drafts : ∀ {i stage}, s.tasks i = some stage → stage.Drafts path s.disk

theorem IsQuiet.sound (h : s.IsQuiet) (path : Path) : Sound path s :=
  ⟨by simp [h.holder, h.tasks], by simp [h.tasks]⟩

theorem drafts_of_not_isInside (h : stage.isInside = false) (path : Path) (d : Disk) :
    stage.Drafts path d := by
  cases stage with
  | writing m count => simp [Saving.isInside] at h
  | _ => trivial

theorem isInside_of_isIdle (h : s.isIdle i) (ht : s.tasks i = some stage) : stage.isInside = false := by
  unfold isIdle at h
  cases stage with
  | waiting => rfl
  | ended answer => rfl
  | _ => simp [ht] at h

theorem Sound.not_isInside (h : Sound path s) (hi : s.holder ≠ some i) (ht : s.tasks i = some stage) :
    stage.isInside = false := by
  rw [Bool.eq_false_iff]
  exact fun hstage => hi ((h.locked i).2 ⟨stage, ht, hstage⟩)

theorem Sound.isInside (h : Sound path s) (hi : s.holder = some i) (ht : s.tasks i = some stage) :
    stage.isInside := by
  obtain ⟨stage', ht', hstage⟩ := (h.locked i).1 hi
  rwa [Option.some.inj (ht.symm.trans ht')]

theorem Sound.enter (h : Sound path s) (hi : ∀ j, j ≠ i → s.holder ≠ some j)
    (hstage : stage.Drafts path disk) : Sound path (s.enter i stage disk) := by
  constructor
  · intro j
    by_cases hj : j = i
    · subst hj
      cases hin : stage.isInside <;> simp [SharedDump.enter, hin]
    · have hfree : (s.enter i stage disk).holder ≠ some j := by
        unfold SharedDump.enter
        split <;> simp [Ne.symm hj]
      rw [tasks_enter_of_ne hj]
      refine iff_of_false hfree ?_
      rintro ⟨stage', ht, hin⟩
      simp [h.not_isInside (hi j hj) ht] at hin
  · intro j stage' ht
    rcases tasks_enter_cases ht with ⟨-, rfl⟩ | ⟨hj, ht⟩
    · exact hstage
    · exact drafts_of_not_isInside (h.not_isInside (hi j hj) ht) path disk

theorem Sound.update (h : Sound path s) (hi : s.isIdle i) {task : Option Saving}
    (htask : ∀ stage, task = some stage → stage.isInside = false) (metrics : Ledger) :
    Sound path { s with metrics, tasks := Function.update s.tasks i task } := by
  constructor
  · intro j
    by_cases hj : j = i
    · subst hj
      simp only [h.locked j, Function.update_self]
      refine iff_of_false ?_ ?_
      · rintro ⟨stage, ht, hin⟩
        simp [isInside_of_isIdle hi ht] at hin
      · rintro ⟨stage, ht, hin⟩
        simp [htask stage ht] at hin
    · simp only [Function.update_of_ne hj, h.locked j]
  · intro j stage ht
    rcases tasks_update_cases ht with ⟨-, hstage⟩ | ⟨-, ht⟩
    · exact drafts_of_not_isInside (htask stage hstage) path _
    · exact h.drafts ht

theorem Sound.steps (h : Sound path s) (hs : Steps path s e s') : Sound path s' := by
  have honly : ∀ {i : Fin n}, s.holder = some i → ∀ j, j ≠ i → s.holder ≠ some j := by
    intro i hi j hj hj'
    exact hj (Option.some.inj (hj'.symm.trans hi))
  cases hs with
  | stay => exact h
  | operate op hi => exact h.update hi (by simp) _
  | save hi => exact h.update hi (by simp [Saving.isInside]) _
  | lock more ht hfree => exact h.enter (by simp [hfree]) trivial
  | proceed more ht hi => exact h.enter (honly hi) (Saving.drafts_step path more _ _ _ (h.drafts ht))
  | fail e hi => exact h.enter (honly hi) trivial

/-- An event that changes the dump is the last step of a save that succeeds and gives the lock back. -/
theorem Sound.node?_steps (h : Sound path s) (hs : Steps path s e s') :
    s'.disk.node? path = s.disk.node? path ∨ ∃ i more stage, e = .advance i more ∧
      s.holder = some i ∧ s'.holder = none ∧ s'.tasks i = some stage ∧ stage.hasSucceeded := by
  cases hs with
  | stay => exact .inl rfl
  | operate op hi => exact .inl rfl
  | save hi => exact .inl rfl
  | lock more ht hfree => exact .inl rfl
  | @proceed i stage more ht hi =>
    rcases Saving.node?_step path more s.metrics stage s.disk (h.isInside hi ht) (h.drafts ht) with
      ⟨hsame, -⟩ | ⟨m, -, hended, -⟩
    · exact .inl hsame
    · exact .inr ⟨i, more, _, rfl, hi, by simp [SharedDump.enter, hended, Saving.isInside],
        by rw [hended, tasks_enter_self], rfl⟩
  | fail e hi => exact .inl rfl

theorem exists_operate_of_metrics_ne (hs : Steps path s e s') (h : s'.metrics ≠ s.metrics) :
    ∃ i op, e = .operate i op := by
  cases hs with
  | operate op hi => exact ⟨_, op, rfl⟩
  | _ => exact absurd rfl h

end Invariant

section Runs
variable {path : Path} {events : Nat → Event n} {s : SharedDump n} {i : Fin n} {t j k : Nat}
  {o o' : Option Nat}

theorem steps_after (path : Path) (events : Nat → Event n) (s : SharedDump n) (t : Nat) :
    Steps path (s.after path events t) (events t) (s.after path events (t + 1)) :=
  steps_step path _ _

def Changes (path : Path) (events : Nat → Event n) (s : SharedDump n) (i : Fin n) (k : Nat) : Prop :=
  (∃ op, events k = .operate i op) ∧
    (s.after path events (k + 1)).metrics ≠ (s.after path events k).metrics

/-- The moment `j` comes behind all that the task has done to the metrics before `t`. -/
def Follows (path : Path) (events : Nat → Event n) (s : SharedDump n) (i : Fin n) (t j : Nat) : Prop :=
  j ≤ t ∧ ∀ k < t, Changes path events s i k → k < j

theorem Follows.succ (h : Follows path events s i t j) (hi : ¬ Changes path events s i t) :
    Follows path events s i (t + 1) j := by
  refine ⟨Nat.le_succ_of_le h.1, fun k hk hchange => ?_⟩
  rcases Nat.lt_succ_iff_lt_or_eq.1 hk with hlt | rfl
  · exact h.2 k hlt hchange
  · exact absurd hchange hi

theorem Follows.mono (h : Follows path events s i t j) (hj : j ≤ k) (hk : k ≤ t) :
    Follows path events s i t k :=
  ⟨hk, fun k' hk' hchange => Nat.lt_of_lt_of_le (h.2 k' hk' hchange) hj⟩

/-- At the time `t` the dump is what was there at the start, or the metrics of the moment given. -/
def Shows (path : Path) (events : Nat → Event n) (s : SharedDump n) (t : Nat) : Option Nat → Prop
  | none => (s.after path events t).disk.node? path = s.disk.node? path
  | some j => j ≤ t ∧ (s.after path events t).disk.node? path =
      some (.file (Bytes.ofText (Dump.render (s.after path events j).metrics)))

/-- The second source of a dump is no older. What was there at the start is older than every moment. -/
def NoOlder (o o' : Option Nat) : Prop := ∀ j, o = some j → ∃ j', o' = some j' ∧ j ≤ j'

theorem NoOlder.refl (o : Option Nat) : NoOlder o o := fun j hj => ⟨j, hj, Nat.le_refl j⟩

theorem NoOlder.trans {o'' : Option Nat} (h : NoOlder o o') (h' : NoOlder o' o'') : NoOlder o o'' := by
  intro j hj
  obtain ⟨j', hj', hle⟩ := h j hj
  obtain ⟨j'', hj'', hle'⟩ := h' j' hj'
  exact ⟨j'', hj'', Nat.le_trans hle hle'⟩

/-- What holds at the time `t` if the dump comes from the moment `o`: a save has noted metrics that were
there after its task's work and that are no older than the dump; a save that has succeeded has brought its
task's work into the dump. -/
structure Kept (path : Path) (events : Nat → Event n) (s : SharedDump n) (t : Nat) (o : Option Nat) :
    Prop where
  sound : Sound path (s.after path events t)
  shows : Shows path events s t o
  noted : ∀ {i stage m}, (s.after path events t).tasks i = some stage → stage.metrics? = some m →
    ∃ j, Follows path events s i t j ∧ m = (s.after path events j).metrics ∧ NoOlder o (some j)
  saved : ∀ {i stage}, (s.after path events t).tasks i = some stage → stage.hasSucceeded →
    ∃ j, o = some j ∧ Follows path events s i t j

theorem IsQuiet.kept (h : s.IsQuiet) (path : Path) (events : Nat → Event n) :
    Kept path events s 0 none where
  sound := h.sound path
  shows := rfl
  noted ht := by simp [after, h.tasks] at ht
  saved ht := by simp [after, h.tasks] at ht

theorem not_changes_of_ne (h : ∀ op, events t ≠ .operate i op) : ¬ Changes path events s i t :=
  fun ⟨⟨op, hop⟩, _⟩ => h op hop

/-- The dump stays, and so does what the saves know: whatever a save has noted it had noted before, or it
notes it now, and no save has come to a good end. -/
theorem Kept.same (h : Kept path events s t o)
    (hnode : (s.after path events (t + 1)).disk.node? path = (s.after path events t).disk.node? path)
    (hchanges : ∀ i stage, (s.after path events (t + 1)).tasks i = some stage →
      ¬ Changes path events s i t)
    (hnoted : ∀ i stage m, (s.after path events (t + 1)).tasks i = some stage →
      stage.metrics? = some m → m = (s.after path events t).metrics ∨
        ∃ stage', (s.after path events t).tasks i = some stage' ∧ stage'.metrics? = some m)
    (hsaved : ∀ i stage, (s.after path events (t + 1)).tasks i = some stage → stage.hasSucceeded →
      (s.after path events t).tasks i = some stage) :
    Kept path events s (t + 1) o where
  sound := h.sound.steps (steps_after path events s t)
  shows := by
    cases o with
    | none => exact hnode.trans h.shows
    | some j => exact ⟨Nat.le_succ_of_le h.shows.1, hnode.trans h.shows.2⟩
  noted {i stage m} ht hm := by
    have hi := hchanges i stage ht
    rcases hnoted i stage m ht hm with rfl | ⟨stage', ht', hm'⟩
    · refine ⟨t, ⟨Nat.le_succ t, fun k hk hchange => ?_⟩, rfl, fun j hj => ⟨t, rfl, ?_⟩⟩
      · rcases Nat.lt_succ_iff_lt_or_eq.1 hk with hlt | rfl
        · exact hlt
        · exact absurd hchange hi
      · subst hj
        exact h.shows.1
    · obtain ⟨j, hj, hmetrics, hsource⟩ := h.noted ht' hm'
      exact ⟨j, hj.succ hi, hmetrics, hsource⟩
  saved {i stage} ht hgood := by
    obtain ⟨j, hj, hfollows⟩ := h.saved (hsaved i stage ht hgood) hgood
    exact ⟨j, hj, hfollows.succ (hchanges i stage ht)⟩

theorem Kept.finish (h : Kept path events s t o) {more : Nat} {stage : Saving} {m : Ledger}
    {disk : Disk} (he : events t = .advance i more)
    (ht : (s.after path events t).tasks i = some stage) (hholder : (s.after path events t).holder = some i)
    (hm : stage.metrics? = some m) (hafter : s.after path events (t + 1) =
      (s.after path events t).enter i (.ended (.ok m.length)) disk)
    (hnode : disk.node? path = some (.file (Bytes.ofText (Dump.render m)))) :
    ∃ o', NoOlder o o' ∧ Kept path events s (t + 1) o' := by
  obtain ⟨j, hj, rfl, hsource⟩ := h.noted ht hm
  have hchanges : ∀ i', ¬ Changes path events s i' t := fun i' => not_changes_of_ne (by simp [he])
  refine ⟨some j, hsource, h.sound.steps (steps_after path events s t), ?_, ?_, ?_⟩
  · exact ⟨Nat.le_succ_of_le hj.1, by rw [hafter]; exact hnode⟩
  · intro i' stage' m' ht' hm'
    rw [hafter] at ht'
    rcases tasks_enter_cases ht' with ⟨-, rfl⟩ | ⟨hi', ht'⟩
    · simp [Saving.metrics?] at hm'
    · have hout := h.sound.not_isInside (fun hi => hi' (Option.some.inj (hi.symm.trans hholder))) ht'
      cases stage' <;> simp [Saving.metrics?, Saving.isInside] at hm' hout
  · intro i' stage' ht' hgood
    refine ⟨j, rfl, ?_⟩
    rw [hafter] at ht'
    rcases tasks_enter_cases ht' with ⟨rfl, -⟩ | ⟨-, ht'⟩
    · exact hj.succ (hchanges i')
    · obtain ⟨j', rfl, hfollows⟩ := h.saved ht' hgood
      obtain ⟨j'', hj'', hle⟩ := hsource j' rfl
      obtain rfl := Option.some.inj hj''
      exact (hfollows.mono hle hj.1).succ (hchanges i')

theorem Kept.enter (h : Kept path events s t o) {stage : Saving} {disk : Disk}
    (he : ∀ i op, events t ≠ .operate i op)
    (hafter : s.after path events (t + 1) = (s.after path events t).enter i stage disk)
    (hnode : disk.node? path = (s.after path events t).disk.node? path)
    (hnoted : ∀ m, stage.metrics? = some m → m = (s.after path events t).metrics ∨
      ∃ stage', (s.after path events t).tasks i = some stage' ∧ stage'.metrics? = some m)
    (hbad : stage.hasSucceeded = false) : Kept path events s (t + 1) o := by
  refine h.same (by rw [hafter]; exact hnode) (fun i' _ _ => not_changes_of_ne (he i')) ?_ ?_
  · intro i' stage' m ht hm
    rw [hafter] at ht
    rcases tasks_enter_cases ht with ⟨rfl, rfl⟩ | ⟨-, ht⟩
    · exact hnoted m hm
    · exact .inr ⟨stage', ht, hm⟩
  · intro i' stage' ht hgood
    rw [hafter] at ht
    rcases tasks_enter_cases ht with ⟨-, rfl⟩ | ⟨-, ht⟩
    · simp [hbad] at hgood
    · exact ht

theorem Kept.update (h : Kept path events s t o) {task : Option Saving} {metrics : Ledger}
    (he : ∀ j op, j ≠ i → events t ≠ .operate j op) (htask : task = none ∨ task = some .waiting ∧
      ∀ op, events t ≠ .operate i op)
    (hafter : s.after path events (t + 1) = { s.after path events t with
      metrics, tasks := Function.update (s.after path events t).tasks i task }) :
    Kept path events s (t + 1) o := by
  have hcases : ∀ {j stage}, (s.after path events (t + 1)).tasks j = some stage →
      stage = .waiting ∧ (∀ op, events t ≠ .operate j op) ∨
        j ≠ i ∧ (s.after path events t).tasks j = some stage := by
    intro j stage ht
    rw [hafter] at ht
    refine (tasks_update_cases ht).imp_left ?_
    rintro ⟨rfl, hstage⟩
    rcases htask with hnone | ⟨hwaiting, hop⟩
    · cases hnone.symm.trans hstage
    · exact ⟨(Option.some.inj (hwaiting.symm.trans hstage)).symm, hop⟩
  refine h.same (by rw [hafter]) (fun j stage ht => ?_) (fun j stage m ht hm => ?_)
    (fun j stage ht hgood => ?_)
  · rcases hcases ht with ⟨-, hop⟩ | ⟨hj, -⟩
    · exact not_changes_of_ne hop
    · exact not_changes_of_ne fun op => he j op hj
  · rcases hcases ht with ⟨rfl, -⟩ | ⟨-, ht⟩
    · cases hm
    · exact .inr ⟨stage, ht, hm⟩
  · rcases hcases ht with ⟨rfl, -⟩ | ⟨-, ht⟩
    · cases hgood
    · exact ht

theorem Kept.succ (h : Kept path events s t o) :
    ∃ o', NoOlder o o' ∧ Kept path events s (t + 1) o' := by
  have hsteps := steps_after path events s t
  generalize hafter : s.after path events (t + 1) = s' at hsteps
  generalize he : events t = e at hsteps
  cases hsteps with
  | stay =>
    refine ⟨o, .refl o, h.same (by rw [hafter]) ?_ ?_ ?_⟩
    · exact fun i stage _ ⟨_, hne⟩ => hne (by rw [hafter])
    · exact fun i stage m ht hm => .inr ⟨stage, hafter ▸ ht, hm⟩
    · exact fun i stage ht _ => hafter ▸ ht
  | @operate i op hi =>
    refine ⟨o, .refl o, h.update (i := i) ?_ (.inl rfl) hafter⟩
    intro j op' hj hop
    exact hj (Event.operate.inj (he.symm.trans hop)).1.symm
  | @save i hi =>
    exact ⟨o, .refl o, h.update (i := i) (by simp [he]) (.inr ⟨rfl, by simp [he]⟩) hafter⟩
  | lock more ht hfree =>
    exact ⟨o, .refl o, h.enter (by simp [he]) hafter rfl (by simp [Saving.metrics?]) rfl⟩
  | @proceed i stage more ht hi =>
    rcases Saving.node?_step path more (s.after path events t).metrics stage _
      (h.sound.isInside hi ht) (h.sound.drafts ht) with ⟨hnode, hbad⟩ | ⟨m, hm, hended, hnode⟩
    · refine ⟨o, .refl o, h.enter (by simp [he]) hafter hnode (fun m hm => ?_) hbad⟩
      rcases Saving.metrics?_step hm with hm' | ⟨-, rfl⟩
      · exact .inr ⟨stage, ht, hm'⟩
      · exact .inl rfl
    · rw [hended] at hafter
      exact h.finish he ht hi hm hafter hnode
  | fail e hi =>
    exact ⟨o, .refl o, h.enter (by simp [he]) hafter rfl (by simp [Saving.metrics?]) rfl⟩

/-- A property that holds at the start with some value and goes on with a related one holds all along a
sequence of such values. -/
theorem exists_sources {P : Nat → Option Nat → Prop} (hstart : P 0 none)
    (hsucc : ∀ {t o}, P t o → ∃ o', NoOlder o o' ∧ P (t + 1) o') :
    ∃ source : Nat → Option Nat, source 0 = none ∧ (∀ t, P t (source t)) ∧
      ∀ t u, t ≤ u → NoOlder (source t) (source u) := by
  choose next hnext using fun (p : {p : Nat × Option Nat // P p.1 p.2}) => hsucc p.2
  let run : (t : Nat) → {o : Option Nat // P t o} := fun t =>
    Nat.rec ⟨none, hstart⟩ (fun t o => ⟨next ⟨(t, o.1), o.2⟩, (hnext ⟨(t, o.1), o.2⟩).2⟩) t
  refine ⟨fun t => (run t).1, rfl, fun t => (run t).2, fun t u hu => ?_⟩
  induction hu with
  | refl => exact .refl _
  | @step u _ ih => exact ih.trans (hnext ⟨(u, (run u).1), (run u).2⟩).1

theorem Kept.exists_of_hasSaved (h : Kept path events s t o)
    (hsaved : (s.after path events t).hasSaved i) : ∃ j, o = some j ∧ Follows path events s i t j := by
  unfold hasSaved at hsaved
  cases ht : (s.after path events t).tasks i with
  | none => simp [ht] at hsaved
  | some stage => exact h.saved ht (by simpa [ht] using hsaved)

theorem metrics_eq_of_not_changes (hjt : j ≤ t)
    (h : ∀ i k, j ≤ k → k < t → ¬ Changes path events s i k) :
    (s.after path events t).metrics = (s.after path events j).metrics := by
  induction hjt with
  | refl => rfl
  | @step t hjt ih =>
    rw [← ih fun i k hjk hkt => h i k hjk (Nat.lt_succ_of_lt hkt)]
    refine Classical.byContradiction fun hne => ?_
    obtain ⟨i, op, hop⟩ := exists_operate_of_metrics_ne (steps_after path events s t) hne
    exact h i t hjt (Nat.lt_succ_self t) ⟨⟨op, hop⟩, hne⟩

theorem node?_of_hasFailed {a b : Nat} (h : ∀ t, Sound path (s.after path events t)) (hab : a ≤ b)
    (hheld : ∀ t, a ≤ t → t ≤ b → (s.after path events t).holder = some i)
    (hfailed : (s.after path events (b + 1)).hasFailed i) :
    (s.after path events (b + 1)).disk.node? path = (s.after path events a).disk.node? path := by
  have hkept : ∀ t, a ≤ t → t ≤ b →
      (s.after path events t).disk.node? path = (s.after path events a).disk.node? path := by
    intro t hat htb
    induction hat with
    | refl => rfl
    | @step t hat ih =>
      rw [← ih (Nat.le_of_succ_le htb)]
      refine ((h t).node?_steps (steps_after path events s t)).resolve_right ?_
      rintro ⟨i', more, stage, -, -, hfree, -⟩
      simp [hheld (t + 1) (Nat.le_succ_of_le hat) htb] at hfree
  rw [← hkept b hab (Nat.le_refl b)]
  refine ((h b).node?_steps (steps_after path events s b)).resolve_right ?_
  rintro ⟨i', more, stage, -, hholder, -, ht, hgood⟩
  obtain rfl := Option.some.inj ((hheld b hab (Nat.le_refl b)).symm.trans hholder)
  cases stage with
  | ended answer => cases answer <;> simp_all [hasFailed, Saving.hasFailed, Saving.hasSucceeded]
  | _ => simp [Saving.hasSucceeded] at hgood

/-- Whatever the order of the steps, from a start at which nobody saves: the dump is always what was there
at first or the metrics of some moment, and of later and later moments; it only changes when a save
succeeds, and a save that fails has left it alone; and once all changes have been saved by those who made
them, the dump is the metrics. -/
theorem dump_follows_metrics (h : s.IsQuiet) (path : Path) (events : Nat → Event n) :
    ∃ source : Nat → Option Nat,
      (∀ t, Shows path events s t (source t)) ∧
      (∀ t u, t ≤ u → NoOlder (source t) (source u)) ∧
      (∀ t, (s.after path events (t + 1)).disk.node? path ≠ (s.after path events t).disk.node? path →
        ∃ i more, events t = .advance i more ∧ (s.after path events (t + 1)).hasSaved i) ∧
      (∀ i a b, a ≤ b → (∀ t, a ≤ t → t ≤ b → (s.after path events t).holder = some i) →
        (s.after path events (b + 1)).hasFailed i →
        (s.after path events (b + 1)).disk.node? path = (s.after path events a).disk.node? path) ∧
      ∀ t, (∀ i k, k < t → Changes path events s i k →
          ∃ u, k < u ∧ u ≤ t ∧ (s.after path events u).hasSaved i) →
        (∃ i u, u ≤ t ∧ (s.after path events u).hasSaved i) →
        (s.after path events t).disk.node? path =
          some (.file (Bytes.ofText (Dump.render (s.after path events t).metrics))) := by
  obtain ⟨source, -, hkept, hlater⟩ := exists_sources (h.kept path events) Kept.succ
  have hsound : ∀ t, Sound path (s.after path events t) := fun t => (hkept t).sound
  refine ⟨source, fun t => (hkept t).shows, hlater, fun t hne => ?_,
    fun i a b hab hheld hfailed => node?_of_hasFailed hsound hab hheld hfailed, ?_⟩
  · obtain ⟨i, more, stage, he, -, -, ht, hgood⟩ :=
      ((hsound t).node?_steps (steps_after path events s t)).resolve_left hne
    exact ⟨i, more, he, by simp [hasSaved, ht, hgood]⟩
  · -- what any save has brought into the dump by now comes before its source
    have hsource : ∀ {i u t}, u ≤ t → (s.after path events u).hasSaved i →
        ∃ j, source t = some j ∧ ∀ k < u, Changes path events s i k → k < j := by
      intro i u t hut hsaved
      obtain ⟨j, hj, hfollows⟩ := (hkept u).exists_of_hasSaved hsaved
      obtain ⟨j', hj', hle⟩ := hlater u t hut j hj
      exact ⟨j', hj', fun k hk hchange => Nat.lt_of_lt_of_le (hfollows.2 k hk hchange) hle⟩
    rintro t hall ⟨i, u, hut, hsaved⟩
    obtain ⟨j, hj, -⟩ := hsource hut hsaved
    have hshows := (hkept t).shows
    rw [hj] at hshows
    rw [hshows.2, metrics_eq_of_not_changes hshows.1]
    intro i' k hjk hkt hchange
    obtain ⟨u', hku', hut', hsaved'⟩ := hall i' k hkt hchange
    obtain ⟨j', hj', hbefore⟩ := hsource hut' hsaved'
    obtain rfl := Option.some.inj (hj.symm.trans hj')
    exact absurd (hbefore k hku' hchange) (Nat.not_lt.2 hjk)

end Runs

def freshPair : SharedDump 2 := ⟨[], {}, none, fun _ => none⟩

/-- The second task adds a counter when the first one has noted the metrics for its save, and has to wait
with its own save, which then fails once. -/
def crossedEvents : List (Event 2) :=
  [.operate 0 (.add ⟨"hits", .counter 1⟩ (by decide)), .save 0, .advance 0 0, .advance 0 0,
    .operate 1 (.add ⟨"polls", .counter 3⟩ (by decide)), .save 1, .advance 1 0, .advance 0 0,
    .advance 0 0, .advance 0 5, .advance 0 100, .advance 0 0, .advance 1 0, .advance 1 0,
    .fail 1 (.other .storageFull), .save 1, .advance 1 0, .advance 1 0, .advance 1 0, .advance 1 0,
    .advance 1 100, .advance 1 0]

/-- The events one by one, and then none that does anything. -/
def crossed (t : Nat) : Event 2 := crossedEvents.getD t (.advance 0 0)

theorem dump_follows_metrics_crossed :
    (freshPair.after ["dump"] crossed 15).disk.node? ["dump"] =
      (freshPair.after ["dump"] crossed 13).disk.node? ["dump"] ∧
    (freshPair.after ["dump"] crossed 22).disk.node? ["dump"] =
      some (.file (Bytes.ofText "hits:counter:1\npolls:counter:3\n")) := by
  have hquiet : freshPair.IsQuiet := ⟨rfl, fun _ => rfl⟩
  obtain ⟨source, -, -, -, hfailed, hsaved⟩ := dump_follows_metrics hquiet ["dump"] crossed
  have hboth : ∀ i, (freshPair.after ["dump"] crossed 22).hasSaved i := by decide +kernel
  refine ⟨hfailed 1 13 14 (by decide) (fun t h13 h14 => ?_) (by decide +kernel), ?_⟩
  · obtain rfl | rfl : t = 13 ∨ t = 14 := by omega
    · decide +kernel
    · decide +kernel
  · rw [hsaved 22 (fun i k hk _ => ⟨22, hk, Nat.le_refl _, hboth i⟩) ⟨0, 22, Nat.le_refl _, hboth 0⟩]
    decide +kernel

end SharedDump
end Telemetry
