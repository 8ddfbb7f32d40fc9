import Telemetry.Store.Snapshot

/-!
Saving a ledger again and again: at every full period after the start until the saving is stopped.
The start itself saves nothing. Times are in milliseconds.
-/
namespace Telemetry

structure Autosave where
  path : Path
  period : Nat
  metrics : Ledger
  disk : Disk
  now : Nat := 0
  isStopped : Bool := false
deriving DecidableEq

namespace Autosave

/-- Saves now; a failure leaves the dump as it was. -/
def save (a : Autosave) : Autosave := { a with disk := (a.metrics.save a.path a.disk).2 }

def isDue (a : Autosave) (span : Nat) : Bool :=
  !a.isStopped && a.now / a.period < (a.now + span) / a.period

/-- Lets time pass. The ledger does not change meanwhile, so of several saves the first one does it
all. -/
def wait (span : Nat) (a : Autosave) : Autosave :=
  let a' := if a.isDue span then a.save else a
  { a' with now := a.now + span }

def stop (a : Autosave) : Autosave := { a with isStopped := true }

end Autosave
end Telemetry
