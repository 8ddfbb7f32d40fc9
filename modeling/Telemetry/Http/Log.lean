import Telemetry.Http.Message
import Telemetry.Text.Split

/-!
The log of requests: one event before a request is answered and one after it. A body that is posted
is read first if its length is known and not too great, and put back for who answers the request; any
other goes by unseen. What is read is quoted unless it is encoded.
-/
namespace Telemetry.Http

namespace Log

inductive Level where
  | info
  | warn
  | error
deriving DecidableEq, Repr

inductive Event where
  /-- A request whose body breaks off, which is not passed on. -/
  | unreadable
  | request (method path client : String) (body : Option String)
  | response (level : Level) (status : Nat) (body : Option String)
deriving DecidableEq, Repr

/-- The last place no more than `n` bytes into a text where no character is cut, looked for byte by byte
from there back. -/
def lastEnd (s : String) : Nat → s.Pos
  | 0 => s.startPos
  | n + 1 => if h : String.Pos.Raw.IsValid s ⟨n + 1⟩ then s.pos ⟨n + 1⟩ h else lastEnd s n

/-- A body as it is quoted: at most `max` bytes of it, and dots if that is not all. -/
def excerpt (max : Nat) (b : Bytes) : String :=
  match b.toText? with
  | none => "<non-utf8 body>"
  | some s => if max < s.utf8ByteSize then (s.sliceTo (lastEnd s max)).copy ++ "..." else s

def excerptSize : Nat := 200

def maxRequestBody : Nat := 1024 * 1024

def isEncoded (h : Headers) : Bool :=
  match h.text? "Content-Encoding" with
  | some e => e.toLower != "identity"
  | none => false

def isJson (h : Headers) : Bool :=
  match h.text? "Content-Type" with
  | some t => (Text.splitAtText? "application/json".toList t.toList).isSome
  | none => false

def isRead (req : Request) : Bool :=
  req.method == "POST" && req.body.size?.any (· ≤ maxRequestBody)

/-- The request as it is passed on: a body that is read is replaced by what has been read. -/
def collect (req : Request) : Except BodyError Request :=
  if req.method ≠ "POST" then .ok req
  else match req.body.size? with
    | none => .ok req
    | some n =>
      if maxRequestBody < n then .ok req
      else (req.body.read n).map fun bytes => { req with body := { content := bytes } }

def requestBody (req : Request) : String :=
  if req.method ≠ "POST" then ""
  else match req.body.size? with
    | none => "<streamed body, not logged>"
    | some n =>
      if maxRequestBody < n then "<" ++ toString n ++ " bytes, not logged>"
      else if n = 0 then ""
      else if isEncoded req.headers then "<" ++ toString n ++ " encoded bytes>"
      else excerpt excerptSize req.body.content

def responseBody (r : Response) : String :=
  if isJson r.headers && !isEncoded r.headers then excerpt excerptSize r.payload else ""

def nonEmpty? (s : String) : Option String := if s = "" then none else some s

def ofRequest (req : Request) : Event :=
  .request req.method req.path ((req.headers.text? clientField).getD "-") (nonEmpty? (requestBody req))

/-- Failures are louder, and then the body is always there. -/
def ofResponse (r : Response) : Event :=
  if 500 ≤ r.status then .response .error r.status (some (responseBody r))
  else if 400 ≤ r.status then .response .warn r.status (some (responseBody r))
  else .response .info r.status (nonEmpty? (responseBody r))

end Log

/-- Logs the requests and marks the responses with their ids. -/
def Handler.logged {σ : Type} (handle : Handler σ) (trace : String) (req : Request) (s : σ) :
    Response × List Log.Event × σ :=
  match Log.collect req with
  | .error _ => (.failure 400 trace "bad_request" "failed to read request body", [.unreadable], s)
  | .ok req =>
    let (r, s') := handle trace req s
    (r.marked trace, [Log.ofRequest req, Log.ofResponse r], s')

end Telemetry.Http
