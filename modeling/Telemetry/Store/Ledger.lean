import Telemetry.Store.Backend

/-!
Metrics in memory: a list in the order of the keys with each key once. A batch takes the items that
can be applied and passes over the others.
-/
namespace Telemetry

/-- Metrics in the order of their keys. -/
abbrev Ledger := List Metric

namespace Ledger

def find? (l : Ledger) (key : Key) : Option Metric := List.find? (fun m => m.key = key) l

/-- Puts a metric in its place, instead of the one with the same key if there is one. -/
def put (m : Metric) : Ledger → Ledger
  | [] => [m]
  | a :: rest =>
    if a.key = m.key then m :: rest
    else if m.key.lt a.key then m :: a :: rest else a :: put m rest

def add (m : Metric) (l : Ledger) : Except StoreError Unit × Ledger :=
  match l.find? m.key with
  | some _ => (.error (.alreadyExists m.key), l)
  | none => (.ok (), l.put m)

def update (key : Key) (i : Input) (l : Ledger) : Except StoreError Metric × Ledger :=
  match l.find? key with
  | none => (.error (.notFound key), l)
  | some m =>
    match m.update i with
    | .ok m' => (.ok m', l.put m')
    | .error e => (.error (.metric e), l)

def retrieve (key : Key) (l : Ledger) : Except StoreError Metric :=
  match l.find? key with
  | some m => .ok m
  | none => .error (.notFound key)

/-- Updates the metric with a key, or a fresh one if there is none. -/
def apply (key : Key) (i : Input) (l : Ledger) : Except MetricError (Metric × Ledger) := do
  let m ← match l.find? key with
    | some m => .ok m
    | none => Metric.fresh key.kind key.name
  let m' ← m.update i
  .ok (m', l.put m')

def upsert (item : Metric) (l : Ledger) : Except MetricError (Metric × Ledger) :=
  l.apply item.key (.ofValue item.value)

/-- Applies the items that can be applied, one after another. -/
def applyAll : List Metric → Ledger → List Metric × Ledger
  | [], l => ([], l)
  | item :: items, l =>
    match l.upsert item with
    | .ok (m, l') =>
      let (ms, l'') := applyAll items l'
      (m :: ms, l'')
    | .error _ => applyAll items l

def updateBatch (items : List Metric) (l : Ledger) : Except StoreError (List Metric) × Ledger :=
  let (ms, l') := applyAll items l
  (.ok ms, l')

/-- Takes in metrics if there are none yet; of metrics with one key the last counts. -/
def loadIntoEmpty (ms : List Metric) (l : Ledger) : Except StoreError Nat × Ledger :=
  if l.isEmpty then (.ok ms.length, ms.foldl (fun l m => l.put m) l)
  else (.error .restoreIntoNonEmpty, l)

def backend : Backend Ledger where
  add := add
  update := update
  retrieve := retrieve
  all l := .ok l
  updateBatch := updateBatch
  ping _ := .error (.unsupported "ping")

theorem find?_put_self (m : Metric) (l : Ledger) : (l.put m).find? m.key = some m := by
  induction l with
  | nil => simp [put, find?]
  | cons a l ih =>
    simp only [put]
    split
    · simp [find?]
    · next h =>
      split
      · simp [find?]
      · rw [find?, List.find?_cons_of_neg (by simpa using h)]
        exact ih

theorem find?_put_of_ne {m : Metric} {key : Key} (h : m.key ≠ key) (l : Ledger) :
    (l.put m).find? key = l.find? key := by
  induction l with
  | nil => simp [put, find?, h]
  | cons a l ih =>
    simp only [put]
    split
    · next ha => simp [find?, h, ha]
    · split
      · simp [find?, h]
      · simp only [find?, List.find?_cons] at ih ⊢
        split
        · rfl
        · exact ih

theorem key_of_find? {l : Ledger} {key : Key} {m : Metric} (h : l.find? key = some m) :
    m.key = key := by
  simpa using List.find?_some h

end Ledger
end Telemetry
