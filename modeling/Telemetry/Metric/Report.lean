import Telemetry.Metric.Basic

/-!
Reports: metrics as clients send them, with a field for each kind of value. Only a report whose one
filled field fits its kind stands for a metric.
-/
namespace Telemetry

/-- A metric on the wire. -/
structure Report where
  id : String
  kind : Kind
  delta : Option Int64
  value : Option Binary64
deriving DecidableEq

/-- A report whose kind is still a text. -/
structure Record where
  id : String
  kind : String
  delta : Option Int64
  value : Option Binary64
deriving DecidableEq

inductive ReportError where
  | metric (e : MetricError)
  | malformed (id : String) (kind : Kind)
deriving DecidableEq, Repr

def ReportError.message : ReportError → String
  | metric e => e.message
  | malformed id kind =>
    "metric '" ++ id ++ "' of type " ++ kind.text ++ " must carry exactly one matching value field"

namespace Report

/-- The update that a report asks for. -/
def input (r : Report) : Except ReportError Input :=
  match r.kind, r.delta, r.value with
  | .counter, some n, none => .ok (.int n)
  | .gauge, none, some x => .ok (.float x)
  | kind, _, _ => .error (.malformed r.id kind)

/-- The metric that a report stands for. The value fields are looked at before the name. -/
def toMetric (r : Report) : Except ReportError Metric :=
  match r.input with
  | .error e => .error e
  | .ok i =>
    match (Metric.fresh r.kind r.id).bind fun m => m.update i with
    | .ok m => .ok m
    | .error e => .error (.metric e)

def ofMetric (m : Metric) : Report := ⟨m.name, m.kind, m.value.counter?, m.value.gauge?⟩

/-- A report without values, which asks for a metric. -/
def query (kind : Kind) (id : String) : Report := ⟨id, kind, none, none⟩

def toRecord (r : Report) : Record := ⟨r.id, r.kind.text, r.delta, r.value⟩

def ofRecord (r : Record) : Except MetricError Report :=
  match Kind.ofText? r.kind with
  | some k => .ok ⟨r.id, k, r.delta, r.value⟩
  | none => .error (.invalidKind r.kind)

@[simp] theorem ofRecord_toRecord (r : Report) : ofRecord r.toRecord = .ok r := by
  simp [ofRecord, toRecord]

end Report
end Telemetry
