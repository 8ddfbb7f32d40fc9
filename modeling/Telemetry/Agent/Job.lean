import Telemetry.Config.Agent
import Telemetry.Crypto.KeyFile
import Telemetry.Metric.ReportJson
import Telemetry.Rpc.Status

/-!
What an agent sends, a report for each metric or one list of reports for all, and why it could not be sent.
-/
namespace Telemetry.Agent

inductive Job where
  | one (r : Report)
  | batch (rs : List Report)
deriving DecidableEq

namespace Job

def toJson : Job → Bytes
  | one r => r.toJson
  | batch rs => Report.listToJson rs

/-- The jobs of a cycle. Where there is nothing to report there is nothing to do. -/
def ofSnapshot (mode : SendMode) (ms : List Metric) : List Job :=
  let rs := ms.map Report.ofMetric
  match mode with
  | .single => rs.map one
  | .batch => if rs.isEmpty then [] else [batch rs]

end Job

inductive SendError where
  /-- The request cannot be built from the metrics or the settings. -/
  | encode (reason : String)
  /-- An HTTP request that fails without an answer. -/
  | http (passes : Bool)
  /-- An answer that refuses the metrics. -/
  | rejected (status : Nat) (body : String)
  | rpc (status : Status)
  /-- The address is none for calls. -/
  | channel
  | signingKey
  | publicKey (e : KeyFileError)
deriving DecidableEq, Repr

namespace SendError

def message : SendError → String
  | encode reason => "failed to encode payload: " ++ reason
  | http _ => "http request failed"
  | rejected status body => "server responded with " ++ toString status ++ ": " ++ body
  | rpc status => status.message
  | channel => "rpc channel error"
  | signingKey => "invalid signing key"
  | publicKey e => e.message

def isTransient : SendError → Bool
  | http passes => passes
  | rpc status => status.code.isTransient
  | _ => false

end SendError

end Telemetry.Agent
