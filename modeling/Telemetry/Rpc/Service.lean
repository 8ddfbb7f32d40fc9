import Telemetry.Crypto.Oaep
import Telemetry.Http.Message
import Telemetry.Rpc.Status
import Telemetry.Server.State
import Telemetry.Wire.Message

/-!
Remote procedure calls on a server. Before a call reaches the server, the address of its client is
checked against the trusted subnet.
-/
namespace Telemetry

namespace Rpc

inductive Call where
  | update (r : UpdateRequest)
  /-- An update encrypted for the server. -/
  | updateEncrypted (payload : Bytes)
  | updateAll (rs : List Record)
  | get (kind name : String)
  | list
  | ping
deriving DecidableEq

inductive Reply where
  | value (text : String)
  | records (rs : List Record)
  | done
deriving DecidableEq

/-- A refused request as a status; failures of the store are not told in detail. -/
def statusOf : RequestError → Status
  | .invalid e => ⟨.invalidArgument, e.message⟩
  | .notFound key => ⟨.notFound, (RequestError.notFound key).message⟩
  | .store _ => ⟨.internal, "storage failure"⟩

def reply {α : Type} (f : α → Reply) (r : Except RequestError α) : Except Status Reply :=
  (r.map f).mapError statusOf

def valueReply (m : Metric) : Reply := .value m.value.text

def recordsReply (ms : List Metric) : Reply :=
  .records (ms.map fun m => (Report.ofMetric m).toRecord)

end Rpc

namespace Server
open Rpc

def callUpdate (r : UpdateRequest) (s : Server) : Except Status Reply × Server :=
  let (a, s') := s.updateByValue r.kind r.name (.text r.value)
  (reply valueReply a, s')

def decryptUpdate (key : Option Rsa.PrivateKey) (payload : Bytes) : Except Status UpdateRequest :=
  match key with
  | none =>
    .error ⟨.failedPrecondition, "encrypted updates are not configured on this server"⟩
  | some key =>
    match Oaep.decrypt key payload with
    | .error e => .error ⟨.invalidArgument, "cannot decrypt payload: " ++ e.message⟩
    | .ok plain =>
      match UpdateRequest.decode? plain with
      | none => .error ⟨.invalidArgument, "cannot decode payload"⟩
      | some r => .ok r

/-- Replies to an update with records, of which there have to be some and of known kinds. -/
def callUpdateAll (rs : List Record) (s : Server) : Except Status Reply × Server :=
  match rs.mapM Report.ofRecord with
  | .error e => (.error ⟨.invalidArgument, e.message⟩, s)
  | .ok [] => (.error ⟨.invalidArgument, "batch must not be empty"⟩, s)
  | .ok reports =>
    let (a, s') := s.updateAll reports
    (reply recordsReply a, s')

def callPing (s : Server) : Except Status Reply :=
  match s.ping with
  | .ok () => .ok .done
  | .error (.unsupported _) =>
    .error ⟨.unimplemented, "storage backend has no liveness check"⟩
  | .error _ => .error ⟨.internal, "storage unavailable"⟩

def call (c : Call) (s : Server) : Except Status Reply × Server :=
  match c with
  | .update r => s.callUpdate r
  | .updateEncrypted payload =>
    match decryptUpdate s.privateKey payload with
    | .ok r => s.callUpdate r
    | .error e => (.error e, s)
  | .updateAll rs => s.callUpdateAll rs
  | .get kind name => (reply valueReply (s.get kind name), s)
  | .list => (reply recordsReply s.list, s)
  | .ping => (s.callPing, s)

def refuseCall : Net.ClientError → Status
  | .missing => ⟨.permissionDenied, "missing x-real-ip metadata"⟩
  | e => ⟨.permissionDenied, e.message⟩

/-- Replies to a call of a client with the given address, if the subnet lets it in. -/
def callFrom (client : Option Bytes) (c : Call) (s : Server) : Except Status Reply × Server :=
  match s.subnet with
  | none => s.call c
  | some subnet =>
    match subnet.check (client.bind Http.visibleText?) with
    | .ok _ => s.call c
    | .error e => (.error (refuseCall e), s)

end Server
end Telemetry
