import Telemetry.Crypto.Signature
import Telemetry.Http.Encoding
import Telemetry.Http.Log
import Telemetry.Server.Answer

/-!
What stands before the routes of a server. Updates are only taken from the trusted subnet, and only
with a signature of the body as it was sent; both are looked at before anything of the body is
decoded. JSON answers are signed before they are compressed.
-/
namespace Telemetry.Server
open Http

/-- The longest body that is checked against a signature. -/
def maxSignedBody : Nat := 8 * 1024 * 1024

def trusted (handle : Handler Server) : Handler Server := fun trace req s =>
  match s.subnet with
  | none => handle trace req s
  | some subnet =>
    match subnet.check (req.headers.text? clientField) with
    | .ok _ => handle trace req s
    | .error e => (.failure 403 trace "forbidden" e.message, s)

/-- Refuses posts whose body is not signed with the key. -/
def verified (handle : Handler Server) : Handler Server := fun trace req s =>
  match s.signingKey with
  | none => handle trace req s
  | some key =>
    if req.method ≠ "POST" then handle trace req s
    else match req.headers.text? signatureField with
      | none => (.failure 401 trace "unauthorized" "missing HashSHA256 header", s)
      | some header =>
        match req.body.read maxSignedBody with
        | .error .tooLong =>
          (.failure 400 trace "bad_request" "unreadable body: length limit exceeded", s)
        | .error .broken =>
          (.failure 400 trace "bad_request" "unreadable body: the stream is corrupt", s)
        | .ok bytes =>
          match Signature.verify bytes key header.toList with
          | .ok () => handle trace req s
          | .error .malformed =>
            (.failure 400 trace "bad_request" "HashSHA256 header is not valid base64", s)
          | .error .mismatch => (.failure 401 trace "unauthorized" "signature mismatch", s)

/-- The response with a signature, if it is JSON. -/
def sign (key : Option Bytes) (r : Response) : Response :=
  match key with
  | none => r
  | some key =>
    if r.mediaType = some .json then
      { r with signature := some (String.ofList (Signature.sign r.body key)) }
    else r

def signed (handle : Handler Server) : Handler Server := fun trace req s =>
  let (r, s') := handle trace req s
  (sign s.signingKey r, s')

/-- Answers a request with what its path leads to. -/
def routed : Handler Server := fun trace req s =>
  match Route.ofPath? req.path with
  | none => Handler.decompressed (fun _ _ s => ({ status := 404 }, s)) trace req s
  | some r =>
    if r.isUpdate then trusted (verified (Handler.decompressed (answerRoute r))) trace req s
    else Handler.decompressed (answerRoute r) trace req s

/-- The response as it is sent: a path that is there but not for the method says for which it is, and
a request for the head gets no body. -/
def finish (req : Request) (r : Response) : Response :=
  let allow := ((Route.ofPath? req.path).filter fun route => req.method ∉ route.methods).map
    Route.allow
  { r with allow, body := if req.method = "HEAD" then [] else r.body }

/-- Answers an HTTP request; gives the log too. -/
def handle (trace : String) (req : Request) (s : Server) : Response × List Log.Event × Server :=
  let (r, events, s') := Handler.logged (Handler.compressed (signed routed)) trace req s
  (finish req r, events, s')

end Telemetry.Server
