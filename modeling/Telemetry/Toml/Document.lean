import Telemetry.Toml.Scalar

/-!
TOML documents: assignments and headers, one a line. A document is read statement by statement into
the table that it describes.
-/
namespace Telemetry.Toml

mutual

/-- A value; `depth` bounds how deep arrays and tables are nested. -/
def value? : Nat → Nat → Chars → Option (Item × Chars)
  | 0, _, _ => none
  | fuel + 1, depth, cs =>
    match cs with
    | '[' :: rest =>
      if depth = 0 then none
      else (items? fuel (depth - 1) rest).map fun (vs, rest) => (.array vs, rest)
    | '{' :: rest =>
      if depth = 0 then none
      else match skipBlanks rest with
        | '}' :: rest => some (.table .closed [], rest)
        | rest => (pairs? fuel (depth - 1) [] rest).map fun (es, rest) => (.table .closed es, rest)
    | cs => scalarValue? cs

/-- The items of an array up to its closing bracket. A comma may stand behind the last. -/
def items? : Nat → Nat → Chars → Option (List Item × Chars)
  | 0, _, _ => none
  | fuel + 1, depth, cs => do
    match ← skipLines cs.length cs with
    | ']' :: rest => some ([], rest)
    | cs =>
      let (v, rest) ← value? fuel depth cs
      match ← skipLines rest.length rest with
      | ',' :: rest =>
        let (vs, rest) ← items? fuel depth rest
        some (v :: vs, rest)
      | ']' :: rest => some ([v], rest)
      | _ => none

/-- The assignments in braces up to the closing one, on one line and without a comma at the end. -/
def pairs? : Nat → Nat → Entries → Chars → Option (Entries × Chars)
  | 0, _, _, _ => none
  | fuel + 1, depth, es, cs => do
    let ((path, key), rest) ← key? cs
    match rest with
    | '=' :: rest =>
      let (v, rest) ← value? fuel depth (skipBlanks rest)
      let es ← es.put? path key v
      match skipBlanks rest with
      | ',' :: rest => pairs? fuel depth es rest
      | '}' :: rest => some (es, rest)
      | _ => none
    | _ => none

end

def maxNesting : Nat := 79

inductive Statement where
  | assign (path : List String) (key : String) (value : Item)
  | openTable (path : List String) (key : String)
  | openNext (path : List String) (key : String)

def statement? (cs : Chars) : Option (Statement × Chars) :=
  match cs with
  | '[' :: '[' :: rest => do
    let ((path, key), rest) ← key? rest
    let rest ← (char? ']' rest).bind (char? ']')
    let rest ← endOfLine? rest
    some (.openNext path key, rest)
  | '[' :: rest => do
    let ((path, key), rest) ← key? rest
    let rest ← char? ']' rest
    let rest ← endOfLine? rest
    some (.openTable path key, rest)
  | cs => do
    let ((path, key), rest) ← key? cs
    let rest ← char? '=' rest
    let (v, rest) ← value? (2 * rest.length + 2) maxNesting (skipBlanks rest)
    let rest ← endOfLine? rest
    some (.assign path key v, rest)

def statements? : Nat → Chars → Option (List Statement)
  | 0, _ => none
  | fuel + 1, cs =>
    match skipBlanks cs with
    | [] => some []
    | '#' :: rest => (endOfLine? ('#' :: rest)).bind (statements? fuel)
    | cs =>
      match lineEnd? cs with
      | some rest => statements? fuel rest
      | none => do
        let (s, rest) ← statement? cs
        let more ← statements? fuel rest
        some (s :: more)

/-- Fills a table with the assignments up to the next header; gives the statements from there on. -/
def fill? : List Statement → Entries → Option Entries
  | .assign path key v :: rest, es => (es.put? path key v).bind (fill? rest)
  | _, es => some es

/-- Carries out the statements from a header on, each table with its assignments at once. -/
def build? : List Statement → Entries → Option Entries
  | [], es => some es
  | .assign _ _ _ :: rest, es => build? rest es
  | .openTable path key :: rest, es =>
    (es.descend? (·.openTable? key (fill? rest)) path).bind (build? rest)
  | .openNext path key :: rest, es =>
    (es.descend? (·.openNext? key (fill? rest)) path).bind (build? rest)

/-- The table that a document describes. A byte order mark in front does not count. -/
def document? (text : String) : Option Entries := do
  let cs := match text.toList with
    | '\uFEFF' :: rest => rest
    | cs => cs
  let ss ← statements? (cs.length + 1) cs
  let es ← fill? ss []
  build? ss es

end Telemetry.Toml
