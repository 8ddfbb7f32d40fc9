import Telemetry.Fault
import Telemetry.Text.Bytes
import Telemetry.Text.Split

/-!
A disk: files and directories at paths. A path is a list of components. Reading wants UTF-8; writing
replaces a whole file; a rename replaces its target in one step. Every operation says why it refuses.
-/
namespace Telemetry

/-- The components of a path, outermost first. -/
abbrev Path := List String

namespace Path

def ofText (s : String) : Path :=
  ((Text.split '/' s.toList).filter fun c => c ≠ [] ∧ c ≠ ['.']).map String.ofList

/-- The path beside a path whose last component has a text appended. -/
def withSuffix (p : Path) (suffix : String) : Path := p.dropLast ++ [p.getLastD "" ++ suffix]

def parents (p : Path) : List Path := (List.range (p.length - 1)).map fun i => p.take (i + 1)

end Path

inductive FileError where
  | notFound
  | alreadyExists
  | notADirectory
  | isADirectory
  | notUtf8
  /-- A failure of which only the kind is known. -/
  | other (kind : IoKind)
deriving DecidableEq, Repr

namespace FileError

def message : FileError → String
  | notFound => "No such file or directory (os error 2)"
  | alreadyExists => "File exists (os error 17)"
  | notADirectory => "Not a directory (os error 20)"
  | isADirectory => "Is a directory (os error 21)"
  | notUtf8 => "stream did not contain valid UTF-8"
  | other kind => kind.text

def kind : FileError → IoKind
  | notFound => .notFound
  | alreadyExists => .alreadyExists
  | notADirectory => .notADirectory
  | isADirectory => .isADirectory
  | notUtf8 => .invalidData
  | other kind => kind

end FileError

inductive Node where
  | file (content : Bytes)
  | directory
deriving DecidableEq, Repr

/-- The nodes of a disk, the newest first. The empty path is always a directory. -/
structure Disk where
  nodes : List (Path × Option Node) := []
deriving DecidableEq, Repr

namespace Disk

def node? (d : Disk) (p : Path) : Option Node :=
  if p = [] then some .directory else (d.nodes.lookup p).bind id

def set (d : Disk) (p : Path) (n : Option Node) : Disk :=
  ⟨(p, n) :: d.nodes.filter fun e => e.1 != p⟩

def isFile (d : Disk) (p : Path) : Bool :=
  match d.node? p with
  | some (.file _) => true
  | _ => false

def content? (d : Disk) (p : Path) : Option Bytes :=
  match d.node? p with
  | some (.file b) => some b
  | _ => none

/-- Why a path leads nowhere, if it does. -/
def checkParents (d : Disk) (p : Path) : Except FileError Unit :=
  match p.parents.find? fun q => d.node? q ≠ some .directory with
  | none => .ok ()
  | some q => .error (if d.isFile q then .notADirectory else .notFound)

def read (d : Disk) (p : Path) : Except FileError Bytes := do
  d.checkParents p
  match d.node? p with
  | none => .error .notFound
  | some .directory => .error .isADirectory
  | some (.file b) => .ok b

def readText (d : Disk) (p : Path) : Except FileError String := do
  let b ← d.read p
  match b.toText? with
  | some s => .ok s
  | none => .error .notUtf8

/-- Replaces or creates a file. -/
def write (d : Disk) (p : Path) (content : Bytes) : Except FileError Disk := do
  d.checkParents p
  match d.node? p with
  | some .directory => .error .isADirectory
  | _ => .ok (d.set p (some (.file content)))

def remove (d : Disk) (p : Path) : Disk := d.set p none

/-- Makes the directories that are missing on the way to a path. -/
def makeParents (d : Disk) (p : Path) : Except FileError Disk :=
  let ways := p.parents
  match ways.find? d.isFile with
  | some q => .error (if some q = ways.getLast? then .alreadyExists else .notADirectory)
  | none => .ok (ways.foldl (fun d q => d.set q (some .directory)) d)

/-- Moves a file onto a path. -/
def rename (d : Disk) (source target : Path) : Except FileError Disk := do
  d.checkParents target
  match d.node? source, d.node? target with
  | none, _ => .error .notFound
  | some (.file _), some .directory => .error .isADirectory
  | n, _ => .ok ((d.set source none).set target n)

theorem lookup_filter_ne {α β : Type} [BEq α] [LawfulBEq α] {p q : α} (h : (q == p) = false)
    (xs : List (α × β)) : (xs.filter fun e => e.1 != p).lookup q = xs.lookup q := by
  induction xs with
  | nil => rfl
  | cons x xs ih =>
    obtain ⟨a, b⟩ := x
    cases ha : a == p with
    | true =>
      rw [List.filter_cons_of_neg (by simp [bne, ha]), ih, List.lookup_cons]
      rw [eq_of_beq ha, h]
    | false => rw [List.filter_cons_of_pos (by simp [bne, ha]), List.lookup_cons, List.lookup_cons, ih]

theorem node?_set_self {d : Disk} {p : Path} (h : p ≠ []) (n : Option Node) :
    (d.set p n).node? p = n := by
  simp [node?, set, h]

theorem node?_set_of_ne {d : Disk} {p q : Path} (h : q ≠ p) (n : Option Node) :
    (d.set p n).node? q = d.node? q := by
  simp only [node?, set]
  split
  · rfl
  · have hb : (q == p) = false := by simpa using h
    rw [List.lookup_cons, hb]
    exact congrArg (·.bind id) (lookup_filter_ne hb d.nodes)

end Disk
end Telemetry
