import Telemetry.Metric.Basic
import Telemetry.Store.Disk

/-!
What a store of metrics does, and why it refuses. Every operation gives its answer together with the
state it leaves behind, so that what a refused operation leaves behind can be stated.
-/
namespace Telemetry

inductive StoreError where
  | notFound (key : Key)
  | alreadyExists (key : Key)
  /-- The input is refused; the stored value stays. -/
  | metric (e : MetricError)
  /-- The database fails; `connection` if it could not be reached. -/
  | database (connection : Bool)
  | file (e : FileError)
  /-- A line of a dump that stands for no metric. -/
  | malformedLine (line : Nat) (reason : String)
  | restoreIntoNonEmpty
  /-- A row whose columns do not fit its type. -/
  | corruptRow (row : String)
  | unsupported (what : String)
deriving DecidableEq, Repr

namespace StoreError

def message : StoreError → String
  | notFound key => "Storage: metric " ++ key.text ++ " not found"
  | alreadyExists key => "Storage: metric " ++ key.text ++ " already exists"
  | metric e => "Storage: " ++ e.message
  | database _ => "Storage: database error"
  | file e => "Storage: I/O error: " ++ e.message
  | malformedLine line reason =>
    "Storage: malformed dump line " ++ toString line ++ ": " ++ reason
  | restoreIntoNonEmpty => "Storage: refusing to restore a dump into a non-empty store"
  | corruptRow row => "Storage: corrupt row for " ++ row
  | unsupported what => "Storage: " ++ what ++ " is not supported by this backend"

/-- A repeated operation may succeed. -/
def isTransient : StoreError → Bool
  | database connection => connection
  | file e => (Cause.io e.kind).isTransient
  | _ => false

end StoreError

/-- The operations on a store with states of type `σ`. -/
structure Backend (σ : Type) where
  /-- Adds a metric whose key is new. -/
  add : Metric → σ → Except StoreError Unit × σ
  /-- Updates a metric that is there, and gives its next state. -/
  update : Key → Input → σ → Except StoreError Metric × σ
  retrieve : Key → σ → Except StoreError Metric
  /-- All metrics in the order of their keys. -/
  all : σ → Except StoreError (List Metric)
  /-- Updates metrics with the values of others, adding those that are missing; gives the states after
  each update. -/
  updateBatch : List Metric → σ → Except StoreError (List Metric) × σ
  ping : σ → Except StoreError Unit

end Telemetry
