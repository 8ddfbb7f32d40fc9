import Telemetry.Store.Basic
import Telemetry.Text.Bytes

/-!
Opening a database by its URL. Only SQLite is modelled: a database is in memory or in a file, and the
file has to be there, unless the URL says that it may be created. PostgreSQL is left out, as its
databases are on servers of their own; a URL of another scheme, `postgres` among them, ends in a
database error.
-/
namespace Telemetry.Database

/-- What a URL says about how its file is opened. -/
inductive Mode where
  | readOnly
  | readWrite
  | readWriteCreate
  | memory
deriving DecidableEq, Repr

def Mode.ofText? (s : String) : Option Mode :=
  [("ro", readOnly), ("rw", readWrite), ("rwc", readWriteCreate), ("memory", memory)].lookup s

/-- Settings behind the question mark of a URL, of which the mode counts. -/
def mode? (parameters : List Char) : Option Mode :=
  ((Text.split '&' parameters).filter (· ≠ [])).foldlM (fun mode p =>
    match Text.splitFirst? '=' p with
    | some (['m', 'o', 'd', 'e'], value) => Mode.ofText? (String.ofList value)
    | some (['c', 'a', 'c', 'h', 'e'], value) =>
      if value = "private".toList ∨ value = "shared".toList then some mode else none
    | some (['i', 'm', 'm', 'u', 't', 'a', 'b', 'l', 'e'], value) =>
      if value = "true".toList ∨ value = "false".toList then some mode else none
    | some (['v', 'f', 's'], _) => some mode
    | _ => none) Mode.readWrite

/-- The name of the database and the mode in a URL. -/
def parse? (url : String) : Option (String × Mode) := do
  let cs := url.toList
  let scheme := "sqlite:".toList
  let rest ← if scheme.isPrefixOf cs then some (cs.drop scheme.length) else none
  let rest := if "//".toList.isPrefixOf rest then rest.drop 2 else rest
  let (name, parameters) := (Text.splitFirst? '?' rest).getD (rest, [])
  let mode ← mode? parameters
  if name = ":memory:".toList then some (":memory:", .memory)
  else
    let name ← Text.unescapeText? (String.ofList name)
    some (name, mode)

/-- The file can be opened as a new table: it may be created beside others, or it is there and
empty. -/
def canOpen (path : Path) (mode : Mode) (d : Disk) : Bool :=
  match mode, d.node? path with
  | .memory, _ => true
  | .readOnly, _ => false
  | _, some (.file content) => content.isEmpty
  | _, some .directory => false
  | .readWrite, none => false
  | .readWriteCreate, none => d.node? path.dropLast == some .directory

/-- Opens the database of a URL, with a table that has no rows yet. -/
def connect (url : String) (d : Disk) : Except StoreError Store :=
  match parse? url with
  | none => .error (.database false)
  | some (name, mode) =>
    if canOpen (.ofText name) mode d then .ok (.table []) else .error (.database true)

end Telemetry.Database
