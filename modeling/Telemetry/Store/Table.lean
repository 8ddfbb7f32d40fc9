import Telemetry.Store.Backend

/-!
Metrics in a table of a database: a row for each type and name with a column for each kind of value.
A single operation is one transaction and a batch is one transaction; a transaction that fails leaves
the table as it was. The database keeps no sign of zero and no not-a-number, which becomes an absent
value.
-/
namespace Telemetry

/-- A row. Nothing in the database keeps its columns from contradicting each other. -/
structure Row where
  type : String
  name : String
  int : Option Int64
  float : Option Binary64
deriving DecidableEq

namespace Row

/-- A number as the database keeps it. -/
def stored? (x : Binary64) : Option Binary64 := if x.isNaN then none else some x.dropZeroSign

def ofMetric (m : Metric) : Row :=
  ⟨m.kind.text, m.name, m.value.counter?, m.value.gauge?.bind stored?⟩

/-- The metric that a row stands for: its type is a kind, the column for this kind has a value, and
name and value are those of a metric. -/
def toMetric (r : Row) : Except StoreError Metric :=
  match Kind.ofText? r.type with
  | none => .error (.metric (.invalidKind r.type))
  | some kind =>
    let value? := match kind with
      | .counter => r.int.map Value.counter
      | .gauge => r.float.map Value.gauge
    match value? with
    | none => .error (.corruptRow (r.type ++ "/" ++ r.name))
    | some v =>
      match Metric.withValue r.name v with
      | .ok m => .ok m
      | .error e => .error (.metric e)

def hasKey (r : Row) (type name : String) : Bool := r.type == type && r.name == name

def lt (a b : Row) : Bool :=
  decide (a.type < b.type) || (a.type == b.type && decide (a.name < b.name))

/-- Adds to the column of counters, where it has a value. -/
def increment (delta : Int64) (r : Row) : Row :=
  { r with int := r.int.bind fun n => checkedAdd n delta }

def assign (x : Binary64) (r : Row) : Row := { r with float := stored? x }

end Row

/-- Rows in the order of type and name. -/
abbrev Table := List Row

namespace Table

def find? (t : Table) (key : Key) : Option Row :=
  List.find? (fun r => r.hasKey key.kind.text key.name) t

/-- Puts a row in its place, instead of the one with the same type and name if there is one. -/
def put (r : Row) : Table → Table
  | [] => [r]
  | a :: rest =>
    if a.hasKey r.type r.name then r :: rest
    else if r.lt a then r :: a :: rest else a :: put r rest

/-- Changes the rows with a key; gives how many there are. -/
def change (key : Key) (f : Row → Row) (t : Table) : Nat × Table :=
  let isTarget := fun r : Row => r.hasKey key.kind.text key.name
  (t.countP isTarget, t.map fun r => if isTarget r then f r else r)

def insert (m : Metric) (t : Table) : Except StoreError Unit × Table :=
  match t.find? m.key with
  | some _ => (.error (.alreadyExists m.key), t)
  | none => (.ok (), t.put (.ofMetric m))

/-- What an input asks the database to do with a row: add a delta or set a reading. -/
def statement? (kind : Kind) (i : Input) : Option (Row → Row) :=
  match kind with
  | .counter => i.delta?.map Row.increment
  | .gauge => i.reading?.map Row.assign

/-- The steps of an update: the row is read and the input tried on its metric, then the database
changes the row, and the row is read again. -/
def applyUpdate (key : Key) (i : Input) (t : Table) : Except StoreError Metric × Table :=
  match t.find? key with
  | none => (.error (.notFound key), t)
  | some row =>
    match row.toMetric with
    | .error e => (.error e, t)
    | .ok current =>
      match current.update i with
      | .error e => (.error (.metric e), t)
      | .ok _ =>
        match statement? key.kind i with
        | none => (.error (.metric (.invalidValue key.kind i.display)), t)
        | some f =>
          let (changed, t') := t.change key f
          if changed = 0 then (.error (.notFound key), t')
          else match t'.find? key with
            | none => (.error (.notFound key), t')
            | some row => (row.toMetric, t')

/-- Runs steps as a whole: if they fail, the table is put back. -/
def transaction {α : Type} (steps : Table → Except StoreError α × Table) (t : Table) :
    Except StoreError α × Table :=
  match steps t with
  | (.ok a, t') => (.ok a, t')
  | (.error e, _) => (.error e, t)

def update (key : Key) (i : Input) (t : Table) : Except StoreError Metric × Table :=
  transaction (applyUpdate key i) t

def retrieve (key : Key) (t : Table) : Except StoreError Metric :=
  match t.find? key with
  | some row => row.toMetric
  | none => .error (.notFound key)

def all (t : Table) : Except StoreError (List Metric) := t.mapM Row.toMetric

/-- The steps for one item of a batch: a fresh row if there is none, and the update. -/
def upsert (item : Metric) (t : Table) : Except StoreError Metric × Table :=
  match t.find? item.key with
  | some _ => t.applyUpdate item.key (.ofValue item.value)
  | none =>
    match Metric.fresh item.kind item.name with
    | .error e => (.error (.metric e), t)
    | .ok m =>
      match t.insert m with
      | (.error e, t') => (.error e, t')
      | (.ok (), t') => t'.applyUpdate item.key (.ofValue item.value)

def upsertAll : List Metric → Table → Except StoreError (List Metric) × Table
  | [], t => (.ok [], t)
  | item :: items, t =>
    match t.upsert item with
    | (.error e, t') => (.error e, t')
    | (.ok m, t') =>
      match upsertAll items t' with
      | (.error e, t'') => (.error e, t'')
      | (.ok ms, t'') => (.ok (m :: ms), t'')

def updateBatch (items : List Metric) (t : Table) : Except StoreError (List Metric) × Table :=
  transaction (upsertAll items) t

def backend : Backend Table where
  add := insert
  update := update
  retrieve := retrieve
  all := all
  updateBatch := updateBatch
  ping _ := .ok ()

theorem transaction_error {α : Type} {steps : Table → Except StoreError α × Table} {t t' : Table}
    {e : StoreError} (h : transaction steps t = (.error e, t')) : t' = t := by
  unfold transaction at h
  split at h <;> simp_all

end Table
end Telemetry
