import Telemetry.Binary64.Basic
import Telemetry.Collector.Poll
import Telemetry.Text.Integer

/-!
The statistics of a host: their names in the order in which a sample has them, and the samples. Each
processor adds one name to the fixed ones.
-/
namespace Telemetry.Collector.Host

def memoryNames : List String :=
  ["TotalMemory", "UsedMemory", "FreeMemory", "AvailableMemory", "TotalSwap", "UsedSwap", "FreeSwap",
    "MemoryUsedPercent"]

/-- The use of processor number `i`, counted from zero; the name counts from one. -/
def processorName (i : Nat) : String :=
  String.ofList ("CPUutilization".toList ++ Text.natDigits (i + 1))

def processorNames (count : Nat) : List String :=
  ["CPUutilization", "CPUCount"] ++ (List.range count).map processorName ++
    ["LoadAverage1", "LoadAverage5", "LoadAverage15", "Uptime"]

def networkNames : List String :=
  ["NetworkReceived", "NetworkTransmitted", "NetworkPacketsReceived", "NetworkPacketsTransmitted"]

/-- These are there, as failed readings, also when the process cannot be seen. -/
def processNames : List String :=
  ["ProcessResident", "ProcessVirtual", "ProcessCPU", "ProcessRunTime", "ProcessDiskRead",
    "ProcessDiskWritten"]

def names (count : Nat) : List String :=
  memoryNames ++ processorNames count ++ networkNames ++ processNames

def number (n : UInt64) : Binary64 := .ofInt n.toNat

def named (names : List String) (values : List (Option Binary64)) : List Reading :=
  List.zipWith Reading.mk names values

/-- The memory of a host, in bytes. -/
structure Memory where
  total : UInt64
  used : UInt64
  free : UInt64
  available : UInt64
  totalSwap : UInt64
  usedSwap : UInt64
  freeSwap : UInt64

def Memory.usedPercent? (m : Memory) : Option Binary64 :=
  if m.total = 0 then none
  else some (((number m.used).divMagnitude (number m.total)).mulMagnitude (.ofInt 100))

def Memory.readings (m : Memory) : List Reading :=
  named memoryNames [some (number m.total), some (number m.used), some (number m.free),
    some (number m.available), some (number m.totalSwap), some (number m.usedSwap),
    some (number m.freeSwap), m.usedPercent?]

structure Processors where
  use : Binary64
  each : List Binary64
  load1 : Binary64
  load5 : Binary64
  load15 : Binary64
  uptime : UInt64

def Processors.readings (p : Processors) : List Reading :=
  named (processorNames p.each.length) ([some p.use, some (.ofInt p.each.length)] ++ p.each.map some ++
    [some p.load1, some p.load5, some p.load15, some (number p.uptime)])

structure Interface where
  received : UInt64
  transmitted : UInt64
  packetsReceived : UInt64
  packetsTransmitted : UInt64

/-- The sum over all interfaces, a word. -/
def sumOver (interfaces : List Interface) (amount : Interface → UInt64) : UInt64 :=
  interfaces.foldl (fun sum i => sum + amount i) 0

def networkReadings (interfaces : List Interface) : List Reading :=
  named networkNames ([Interface.received, Interface.transmitted, Interface.packetsReceived,
    Interface.packetsTransmitted].map fun amount => some (number (sumOver interfaces amount)))

structure Process where
  resident : UInt64
  virtual : UInt64
  use : Binary64
  runTime : UInt64
  diskRead : UInt64
  diskWritten : UInt64

/-- Without a process that is seen all of its readings have failed. -/
def processReadings : Option Process → List Reading
  | none => processNames.map fun name => ⟨name, none⟩
  | some p => named processNames [some (number p.resident), some (number p.virtual), some p.use,
      some (number p.runTime), some (number p.diskRead), some (number p.diskWritten)]

structure View where
  memory : Memory
  processors : Processors
  interfaces : List Interface
  process : Option Process

def sample (v : View) : List Reading :=
  v.memory.readings ++ v.processors.readings ++ networkReadings v.interfaces ++
    processReadings v.process

end Telemetry.Collector.Host
