import Telemetry.Agent.HttpClient
import Telemetry.Rpc.Service

/-!
Sending metrics with remote procedure calls. Single updates are encrypted if the key of the server is
known.
-/
namespace Telemetry.Agent
open Rpc

structure RpcClient where
  publicKey : Option Rsa.PublicKey := none
  clientIp : Option Bytes := none
deriving DecidableEq

/-- What the other side replies to a call of a client with the given address. -/
abbrev RpcPeer := Option Bytes → Call → Except Status Reply

namespace RpcClient

/-- The characters that addresses of services are made of. -/
def isAddressChar (c : Char) : Bool :=
  33 ≤ c.toNat && c.toNat < 127 && !"\"<>\\^\x60\x7b|\x7d".contains c

def isAddress (url : String) : Bool :=
  match Text.splitAtText? "://".toList url.toList with
  | none => false
  | some (scheme, rest) =>
    let server := rest.takeWhile fun c => c != '/' && c != '?' && c != '#'
    scheme.all Char.isAlphanum && !scheme.isEmpty && !server.isEmpty && server != [':'] &&
      rest.all isAddressChar

/-- A client with the given settings: the URL is looked at first, then the key, then the address. -/
def ofSettings (s : AgentSettings) (d : Disk) : Except SendError RpcClient := do
  if isAddress s.serverUrl then pure () else .error .channel
  let publicKey ← match s.publicKeyPath with
    | none => pure none
    | some path => ((d.readKey Rsa.publicOfPem? path).map some).mapError .publicKey
  let clientIp ← match s.clientIp with
    | none => pure none
    | some ip =>
      if (Bytes.ofText ip).all HttpClient.isFieldByte then pure (some (Bytes.ofText ip))
      else .error (.encode ("invalid client_ip '" ++ ip ++ "'"))
  pure ⟨publicKey, clientIp⟩

def update (r : Report) : Except SendError UpdateRequest :=
  match r.input with
  | .error e => .error (.encode e.message)
  | .ok i => .ok ⟨r.kind.text, r.id, i.display⟩

/-- The call that sends a job, encrypted with the given seeds if there is a key. -/
def call (c : RpcClient) (seeds : Nat → Bytes) : Job → Except SendError Call
  | .batch rs => .ok (.updateAll (rs.map Report.toRecord))
  | .one r =>
    match update r with
    | .error e => .error e
    | .ok u =>
      match c.publicKey with
      | none => .ok (.update u)
      | some key =>
        match Oaep.encryptFor? key seeds u.encode with
        | none => .error (.encode "the key is too short")
        | some cipher => .ok (.updateEncrypted cipher)

def send (c : RpcClient) (seeds : Nat → Bytes) (peer : RpcPeer) (job : Job) :
    Except SendError Unit :=
  match c.call seeds job with
  | .error e => .error e
  | .ok call =>
    match peer c.clientIp call with
    | .error status => .error (.rpc status)
    | .ok _ => .ok ()

end RpcClient
end Telemetry.Agent
