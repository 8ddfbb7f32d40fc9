import Telemetry.Store.Ledger

/-!
Polling. A poll applies the readings of one sample as gauges, counts itself and sets a random gauge;
a reading that failed or is refused is passed over.
-/
namespace Telemetry.Collector

/-- A statistic and its value, if it could be read. -/
structure Reading where
  name : String
  value : Option Binary64
deriving DecidableEq

def pollCount : Key := ⟨.counter, "PollCount"⟩

def randomValue : Key := ⟨.gauge, "RandomValue"⟩

/-- Applies an input and counts it if it is not refused. -/
def tally (key : Key) (i : Input) (s : Nat × Ledger) : Nat × Ledger :=
  match s.2.apply key i with
  | .ok (_, l) => (s.1 + 1, l)
  | .error _ => s

def applySample (readings : List Reading) (s : Nat × Ledger) : Nat × Ledger :=
  readings.foldl (fun s r =>
    match r.value with
    | some x => tally ⟨.gauge, r.name⟩ (.float x) s
    | none => s) s

/-- One poll with a sample and a random number; gives how many inputs were applied. -/
def poll (random : Binary64) (readings : List Reading) (l : Ledger) : Nat × Ledger :=
  tally randomValue (.float random) (tally pollCount (.int 1) (applySample readings (0, l)))

/-- How many polls start before a cancellation, one at the start and one after each interval. -/
def pollsBefore (interval cancel : Nat) : Nat := (cancel + interval - 1) / interval

/-- The polls of a run one after another: poll `i` of `count` takes sample `i`. -/
def run (randoms : Nat → Binary64) (samples : Nat → List Reading) (count : Nat) (l : Ledger) :
    Ledger :=
  (List.range count).foldl (fun l i => (poll (randoms i) (samples i) l).2) l

end Telemetry.Collector
