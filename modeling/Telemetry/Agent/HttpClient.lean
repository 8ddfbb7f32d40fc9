import Telemetry.Agent.Job
import Telemetry.Crypto.Signature
import Telemetry.Http.Message
import Telemetry.Http.Route

/-!
Sending metrics over HTTP: JSON in a gzip file, signed as it is sent if there is a key.
-/
namespace Telemetry.Agent
open Http

structure HttpClient where
  /-- The URL before the path. -/
  base : String
  signingKey : Option Bytes := none
  clientIp : Option String := none
deriving DecidableEq

/-- What the other side answers: a status and a text, unless it cannot be reached. -/
abbrev HttpPeer := Request → Except SendError (Nat × String)

namespace HttpClient

def ofSettings (s : AgentSettings) : HttpClient :=
  ⟨s.serverUrl, s.key?.map Bytes.ofText, s.clientIp⟩

def path : Job → String
  | .one _ => "/update/"
  | .batch _ => "/updates/"

def isFieldByte (b : UInt8) : Bool := b == Ascii.tab || (32 ≤ b && b != 127)

/-- What names the server in a URL of the web. -/
def server? (url : String) : Option (List Char) :=
  match Text.splitAtText? "://".toList url.toList with
  | none => none
  | some (scheme, rest) =>
    let scheme := (String.ofList scheme).toLower
    if scheme = "http" ∨ scheme = "https" then
      let rest := rest.dropWhile fun c => c == '/' || c == '\\'
      let name := rest.takeWhile fun c => c != '/' && c != '\\' && c != '?' && c != '#'
      some (((Text.splitLast? '@' name).map Prod.snd).getD name)
    else none

def isServiceNumber (cs : List Char) : Bool := cs.isEmpty || (Text.readNat 65535 cs).isOk

def isHostChar (c : Char) : Bool := 33 ≤ c.toNat && c.toNat != 127 && !"#%/:<>?@[\\]^|".contains c

/-- A host that is not empty, and maybe a number of a service behind a colon. -/
def isServer : List Char → Bool
  | '[' :: rest =>
    match Text.splitFirst? ']' rest with
    | some (_, []) => true
    | some (_, ':' :: number) => isServiceNumber number
    | _ => false
  | cs =>
    let (host, number) := (Text.splitFirst? ':' cs).getD (cs, [])
    !host.isEmpty && host.all isHostChar && isServiceNumber number

/-- The request that sends a job; there is none if the URL or the address of the client is not
fit for one. -/
def request (c : HttpClient) (job : Job) : Except SendError Request :=
  let url := c.base ++ path job
  if !(server? url).any isServer then .error (.http false)
  else if !(c.clientIp.all fun ip => (Bytes.ofText ip).all isFieldByte) then .error (.http false)
  else
    let body := Gzip.write job.toJson
    let signature := c.signingKey.map fun key =>
      (signatureField, Bytes.ofText (String.ofList (Signature.sign body key)))
    .ok {
      method := "POST", path := pathOfTarget url,
      headers := [("Content-Type", Bytes.ofText MediaType.json.text),
        ("Content-Encoding", Bytes.ofText "gzip")] ++ signature.toList ++
        (c.clientIp.map fun ip => (clientField, Bytes.ofText ip)).toList,
      body := { content := body } }

def send (c : HttpClient) (peer : HttpPeer) (job : Job) : Except SendError Unit :=
  match (c.request job).bind peer with
  | .error e => .error e
  | .ok (status, text) =>
    if 200 ≤ status ∧ status < 300 then .ok () else .error (.rejected status text)

end HttpClient
end Telemetry.Agent
