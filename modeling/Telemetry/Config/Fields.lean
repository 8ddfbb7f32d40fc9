import Telemetry.Crypto.KeyFile
import Telemetry.Store.Backend
import Telemetry.Text.Blank
import Telemetry.Text.Integer
import Telemetry.Toml.Document

/-!
Settings from a file and from environment variables. A field that the file does not name has its
default; a field of the wrong type makes the whole file unusable. Variables win over the file, one
after another, and the first that cannot be read ends the reading.
-/
namespace Telemetry

/-- Why settings are refused. -/
inductive ConfigError where
  | unreadable (path : String)
  | malformed (path : String)
  | badVariable (name raw reason : String)
  | emptyAddress
  | equalAddresses
  | emptySigningKey
  | subnet (text : String)
  | emptyServerAddress
  | zeroInterval
  | zeroRate
  | database (cause : StoreError)
  | restore (cause : StoreError)
  | privateKey (path : String) (cause : KeyFileError)
deriving DecidableEq, Repr

def ConfigError.message : ConfigError → String
  | unreadable path => "failed to read " ++ path
  | malformed path => "failed to parse " ++ path
  | badVariable name raw reason => "invalid " ++ name ++ "='" ++ raw ++ "': " ++ reason
  | emptyAddress => "http_address and grpc_address must not be empty"
  | equalAddresses => "http_address and grpc_address must differ"
  | emptySigningKey => "signing_key must not be empty when set"
  | subnet _ => "invalid trusted_subnet"
  | emptyServerAddress => "server_address must not be empty"
  | zeroInterval => "poll_interval_secs and report_interval_secs must be positive"
  | zeroRate => "rate_limit must be at least 1"
  | database _ => "failed to open relational storage"
  | restore _ => "failed to restore metrics dump"
  | privateKey path _ => "failed to load private key " ++ path

namespace Config
open Toml

def string? : Item → Option String
  | .string s => some s
  | _ => none

def nat? : Item → Option Nat
  | .integer n => if 0 ≤ n then some n.toNat else none
  | _ => none

def bool? : Item → Option Bool
  | .boolean b => some b
  | _ => none

/-- One of several names: as a string, or as the only key of a table whose value is empty. -/
def choice? {α : Type} (choices : List (String × α)) : Item → Option α
  | .string s => choices.lookup s
  | .table _ [(key, .table _ [])] => choices.lookup key
  | .table _ [(key, .array [])] => choices.lookup key
  | _ => none

/-- The fields of a part of the settings: a table, or an array of values in the order of the names. -/
def part? (names : List String) : Item → Option Entries
  | .table _ es => some es
  | .array vs => some (names.zip vs)
  | .tables items => some (names.zip (items.map fun es => .table .header es))
  | _ => none

def field? {α : Type} (read? : Item → Option α) (default : α) (key : String) (es : Entries) :
    Option α :=
  match es.get? key with
  | none => some default
  | some v => read? v

def optional? {α : Type} (read? : Item → Option α) (key : String) (es : Entries) :
    Option (Option α) :=
  field? (fun v => (read? v).map some) none key es

/-- The settings in a file; a file that is not there means the defaults. -/
def load {α : Type} (default : α) (ofEntries? : Entries → Option α) (path : String) (d : Disk) :
    Except ConfigError α :=
  match d.node? (.ofText path) with
  | none => .ok default
  | some _ =>
    match d.readText (.ofText path) with
    | .error _ => .error (.unreadable path)
    | .ok text =>
      match (document? text).bind ofEntries? with
      | some settings => .ok settings
      | none => .error (.malformed path)

/-- Reading variables into settings of type `σ`. What was set before a variable that cannot be read
stays set. -/
abbrev Reader (σ : Type) := ExceptT ConfigError (StateM σ)

def setText {σ : Type} (lookup : String → Option String) (name : String) (set : String → σ → σ) :
    Reader σ Unit :=
  match lookup name with
  | some v => modify (set v)
  | none => pure ()

/-- Sets a value that is read from a variable without the blanks around it. -/
def setValue {σ α : Type} (lookup : String → Option String) (name : String)
    (read : List Char → Except String α) (set : α → σ → σ) : Reader σ Unit :=
  match lookup name with
  | none => pure ()
  | some raw =>
    match read (Text.trim raw.toList) with
    | .ok v => modify (set v)
    | .error reason => throw (.badVariable name raw reason)

def readWord (cs : List Char) : Except String Nat :=
  (Text.readNat Text.maxWord cs).mapError Text.IntegerError.message

def readBool (cs : List Char) : Except String Bool :=
  match Text.readBool? (String.ofList cs) with
  | some b => .ok b
  | none => .error "provided string was not `true` or `false`"

end Config
end Telemetry
