/-!
The values of a TOML document and the rules by which statements build it. A table remembers how it
came about: only a table that arose on the way to another one may be opened by a header later, and
only a table made by dotted keys may be extended by dotted keys.
-/
namespace Telemetry.Toml

/-- How a table came about. -/
inductive Origin where
  /-- It has its own header, or is the document itself. -/
  | header
  /-- Headers of tables inside it go through it. -/
  | implied
  /-- Dotted keys go through it. -/
  | dotted
  /-- It stands in braces. -/
  | closed
deriving DecidableEq, Repr

inductive Item where
  | string (s : String)
  | integer (n : Int)
  | boolean (b : Bool)
  /-- A number with a fraction or an exponent, an infinity or not-a-number. -/
  | fraction
  /-- A date, a time or both. -/
  | time
  | array (items : List Item)
  | table (origin : Origin) (entries : List (String × Item))
  /-- Tables whose headers stand in double brackets. -/
  | tables (items : List (List (String × Item)))

abbrev Entries := List (String × Item)

namespace Entries

def get? (es : Entries) (key : String) : Option Item := es.lookup key

/-- Replaces the value of a key or adds the key. -/
def set (key : String) (v : Item) (es : Entries) : Entries :=
  if (es.get? key).isSome then es.map fun e => if e.1 = key then (key, v) else e
  else es ++ [(key, v)]

def add? (key : String) (v : Item) (es : Entries) : Option Entries :=
  if (es.get? key).isSome then none else some (es ++ [(key, v)])

/-- Assigns a value to a dotted key: to `key` in the table at the end of `path`. The table may not have
been opened otherwise; `origin` is how the table that `path` starts from came about. -/
def assign? (key : String) (v : Item) : List String → Origin → Entries → Option Entries
  | [], origin, es => if origin = .dotted then es.add? key v else none
  | p :: path, _, es =>
    match es.get? p with
    | none => (assign? key v path .dotted []).map fun sub => es.set p (.table .dotted sub)
    | some (.table origin sub) =>
      if origin = .implied ∨ origin = .dotted then
        (assign? key v path origin sub).map fun sub => es.set p (.table origin sub)
      else none
    | some _ => none

def put? (path : List String) (key : String) (v : Item) (es : Entries) : Option Entries :=
  match path with
  | [] => es.add? key v
  | path => es.assign? key v path .header

/-- Changes the table that a header's path leads to; of tables in double brackets it is the last. -/
def descend? (f : Entries → Option Entries) : List String → Entries → Option Entries
  | [], es => f es
  | p :: path, es =>
    match es.get? p with
    | none => (descend? f path []).map fun sub => es.set p (.table .implied sub)
    | some (.table origin sub) =>
      if origin = .closed then none
      else (descend? f path sub).map fun sub => es.set p (.table origin sub)
    | some (.tables items) =>
      (descend? f path (items.getLastD [])).map fun sub =>
        es.set p (.tables (items.dropLast ++ [sub]))
    | some _ => none

def openTable? (key : String) (fill : Entries → Option Entries) (es : Entries) : Option Entries :=
  match es.get? key with
  | none => (fill []).map fun sub => es.set key (.table .header sub)
  | some (.table .implied sub) => (fill sub).map fun sub => es.set key (.table .header sub)
  | some _ => none

/-- Adds one more table to those of `key` and fills it. -/
def openNext? (key : String) (fill : Entries → Option Entries) (es : Entries) : Option Entries :=
  match es.get? key with
  | none => (fill []).map fun sub => es.set key (.tables [sub])
  | some (.tables items) => (fill []).map fun sub => es.set key (.tables (items ++ [sub]))
  | some _ => none

end Entries
end Telemetry.Toml
