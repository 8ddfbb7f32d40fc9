import Telemetry.Json.Number
import Telemetry.Json.Text
import Telemetry.Metric.Report

/-!
Reports as JSON. Fields are written in the order id, type, delta, value, and absent values are left
out. Reading takes the fields in any order, or as an array in that order, skips unknown fields and
refuses a repeated known one.
-/
namespace Telemetry.Report
open Json

def toMembers (r : Report) : List (String × Bytes) :=
  [("id", quote r.id), ("type", quote r.kind.text)] ++
    (r.delta.map fun n => ("delta", writeInt64 n)).toList ++
    (r.value.map fun x => ("value", writeBinary64 x)).toList

def toJson (r : Report) : Bytes := object r.toMembers

def listToJson (rs : List Report) : Bytes := array (rs.map toJson)

/-- A kind: its name, or an object whose only member has that name and the value null. -/
def readKind? (bs : Bytes) : Option Kind :=
  match unquote? bs with
  | some s => Kind.ofText? s
  | none =>
    match members? bs with
    | some [(k, v)] => if v = null then (unquote? k).bind Kind.ofText? else none
    | _ => none

/-- The fields met so far. A field that may be null counts as met either way. -/
structure Fields where
  id : Option String := none
  kind : Option Kind := none
  delta : Option (Option Int64) := none
  value : Option (Option Binary64) := none

/-- Takes one member; a known one must be new and well-formed. -/
def Fields.add? (f : Fields) (key : Bytes) (v : Bytes) : Option Fields := do
  let k ← unquote? key
  if k = "id" then
    if f.id.isSome then none else (unquote? v).map fun s => { f with id := some s }
  else if k = "type" then
    if f.kind.isSome then none else (readKind? v).map fun s => { f with kind := some s }
  else if k = "delta" then
    if f.delta.isSome then none else (readOptional? readInt64? v).map fun n => { f with delta := some n }
  else if k = "value" then
    if f.value.isSome then none
    else (readOptional? readBinary64? v).map fun x => { f with value := some x }
  else some f

/-- A report from its fields; id and kind are required. -/
def Fields.toReport? (f : Fields) : Option Report := do
  let id ← f.id
  let kind ← f.kind
  some ⟨id, kind, f.delta.getD none, f.value.getD none⟩

def Fields.addAll? (f : Fields) : List (Bytes × Bytes) → Option Fields
  | [] => some f
  | (k, v) :: rest => (f.add? k v).bind fun f => f.addAll? rest

def ofElements? : List Bytes → Option Report
  | id :: kind :: rest => do
    let id ← unquote? id
    let kind ← readKind? kind
    match rest with
    | [] => some ⟨id, kind, none, none⟩
    | [delta] => do
      let delta ← readOptional? readInt64? delta
      some ⟨id, kind, delta, none⟩
    | [delta, value] => do
      let delta ← readOptional? readInt64? delta
      let value ← readOptional? readBinary64? value
      some ⟨id, kind, delta, value⟩
    | _ => none
  | _ => none

def ofValue? (bs : Bytes) : Option Report :=
  match elements? bs with
  | some es => ofElements? es
  | none => (members? bs).bind fun ms => (({} : Fields).addAll? ms).bind Fields.toReport?

/-- A report from a document. -/
def ofJson? (bs : Bytes) : Option Report := (document? bs).bind ofValue?

def listOfJson? (bs : Bytes) : Option (List Report) :=
  (document? bs).bind fun v => (elements? v).bind fun es => es.mapM ofValue?

/-- The key that a lookup asks for, with its values and other fields skipped. -/
def addKeyField? (f : Fields) (key : Bytes) (v : Bytes) : Option Fields := do
  let k ← unquote? key
  if k = "id" ∨ k = "type" then f.add? key v else some f

/-- The key of a lookup from a document: an object with an id and a type, or an array of the two. -/
def keyOfJson? (bs : Bytes) : Option Key := do
  let v ← document? bs
  match elements? v with
  | some [id, kind] => do
    let id ← unquote? id
    let kind ← readKind? kind
    some ⟨kind, id⟩
  | some _ => none
  | none => do
    let ms ← members? v
    let f ← ms.foldlM (fun f (k, v) => addKeyField? f k v) {}
    let id ← f.id
    let kind ← f.kind
    some ⟨kind, id⟩

end Telemetry.Report
