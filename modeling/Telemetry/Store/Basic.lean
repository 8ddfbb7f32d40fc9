import Telemetry.Store.Ledger
import Telemetry.Store.Table

/-!
The stores that a server can have: metrics in memory, metrics in memory with a dump file, or a table
of a database.
-/
namespace Telemetry

inductive Store where
  | memory (metrics : Ledger)
  | file (path : Path) (metrics : Ledger)
  | table (rows : Table)
deriving DecidableEq

namespace Store

def run {α : Type} (onLedger : Ledger → α × Ledger) (onTable : Table → α × Table) : Store → α × Store
  | memory l => let (a, l') := onLedger l; (a, memory l')
  | file path l => let (a, l') := onLedger l; (a, file path l')
  | table rows => let (a, rows') := onTable rows; (a, table rows')

def view {α : Type} (onLedger : Ledger → α) (onTable : Table → α) : Store → α
  | memory l => onLedger l
  | file _ l => onLedger l
  | table rows => onTable rows

def backend : Backend Store where
  add m := run (Ledger.add m) (Table.insert m)
  update key i := run (Ledger.update key i) (Table.update key i)
  retrieve key := view (Ledger.retrieve key) (Table.retrieve key)
  all := view .ok Table.all
  updateBatch items := run (Ledger.updateBatch items) (Table.updateBatch items)
  ping := view Ledger.backend.ping Table.backend.ping

end Store
end Telemetry
