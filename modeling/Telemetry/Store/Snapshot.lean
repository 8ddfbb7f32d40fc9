import Telemetry.Store.Backend
import Telemetry.Store.Ledger

/-!
Dumps: a line for each metric with its name, its kind and its value, colons between them. Reading takes
exactly three fields a line, passes over blank lines and refuses the whole text at the first line that stands
for no metric. A name that has a colon itself is written as it is, so a dump with such a name cannot be read.
A save writes the dump beside its target first and then moves it there in one step, so the target holds a
whole dump at every moment.
-/
namespace Telemetry

namespace Dump

def line (m : Metric) : String := m.name ++ ":" ++ m.kind.text ++ ":" ++ m.value.text

def render (ms : List Metric) : String :=
  String.ofList (ms.flatMap fun m => (line m).toList ++ ['\n'])

inductive LineError where
  | fields (count : Nat)
  | metric (e : MetricError)
deriving DecidableEq, Repr

def LineError.message : LineError → String
  | fields count => "expected 3 ':'-separated fields, found " ++ toString count
  | metric e => e.message

/-- The metric of a line: a fresh one that is updated with the text of the value. -/
def readLine (cs : List Char) : Except LineError Metric :=
  match Text.split ':' cs with
  | [name, kind, value] =>
    match (Metric.parse (String.ofList kind) (String.ofList name)).bind fun m =>
        m.update (.text (String.ofList value)) with
    | .ok m => .ok m
    | .error e => .error (.metric e)
  | pieces => .error (.fields pieces.length)

/-- The metrics of the lines that are not blank; `number` is that of the first line. -/
def readLines (number : Nat) : List (List Char) → Except StoreError (List Metric)
  | [] => .ok []
  | cs :: rest =>
    if cs.all Text.isBlank then readLines (number + 1) rest
    else
      match readLine cs with
      | .error e => .error (.malformedLine number e.message)
      | .ok m => (readLines (number + 1) rest).map (m :: ·)

def read (text : String) : Except StoreError (List Metric) := readLines 1 (Text.lines text.toList)

end Dump

namespace Ledger

/-- Where a dump is written before it is moved to its target. -/
def draftPath (path : Path) : Path := path.withSuffix ".tmp"

def writeDraft (path : Path) (dump : String) (d : Disk) : Except FileError Disk := do
  let d ← d.makeParents path
  d.write (draftPath path) (Bytes.ofText dump)

/-- Replaces the dump with the metrics of a ledger; gives their number. If the last step fails, the
draft stays. -/
def save (path : Path) (l : Ledger) (d : Disk) : Except StoreError Nat × Disk :=
  match writeDraft path (Dump.render l) d with
  | .error e => (.error (.file e), (d.makeParents path).toOption.getD d)
  | .ok d' =>
    match d'.rename (draftPath path) path with
    | .error e => (.error (.file e), d')
    | .ok d'' => (.ok l.length, d'')

/-- Loads a dump into an empty ledger; gives the number of metrics. A file that is not there holds
none. -/
def restore (path : Path) (d : Disk) (l : Ledger) : Except StoreError Nat × Ledger :=
  match d.readText path with
  | .error .notFound => (.ok 0, l)
  | .error e => (.error (.file e), l)
  | .ok text =>
    match Dump.read text with
    | .error e => (.error e, l)
    | .ok ms => l.loadIntoEmpty ms

end Ledger
end Telemetry
