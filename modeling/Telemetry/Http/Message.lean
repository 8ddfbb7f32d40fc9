import Telemetry.Gzip.Member
import Telemetry.Json.Number
import Telemetry.Json.Text

/-!
HTTP requests and responses. A request body may have a length that is not known beforehand, and it
may break off while it is read. A response says what its body is and whether it is sent as a gzip
file; error bodies are JSON with a code, a text and the id of the request, or a plain text.
-/
namespace Telemetry.Http

/-- The fields of a message, in its order. Names are the same in either case. -/
abbrev Headers := List (String × Bytes)

namespace Headers

def values (h : Headers) (name : String) : List Bytes :=
  (h.filter fun f => f.1.toLower = name.toLower).map Prod.snd

def first? (h : Headers) (name : String) : Option Bytes := (h.values name).head?

def without (h : Headers) (name : String) : Headers := h.filter fun f => f.1.toLower ≠ name.toLower

end Headers

def isVisible (b : UInt8) : Bool := b == Ascii.tab || (32 ≤ b && b < 127)

/-- A value as text, which only visible characters are. -/
def visibleText? (value : Bytes) : Option String :=
  if value.all isVisible then value.toText? else none

def Headers.text? (h : Headers) (name : String) : Option String :=
  (h.first? name).bind visibleText?

def clientField : String := "X-Real-IP"

def signatureField : String := "HashSHA256"

def traceField : String := "X-Trace-Id"

/-- A text that can be the value of a field: it has no control characters but tabs. -/
def isFieldText (s : String) : Bool :=
  (Bytes.ofText s).all fun b => b == Ascii.tab || (32 ≤ b && b != 127)

/-- Why a body cannot be had as a whole. -/
inductive BodyError where
  | tooLong
  | broken
deriving DecidableEq, Repr

structure Body where
  content : Bytes
  /-- The length is only known when all has been read. -/
  isStreamed : Bool := false
  /-- It does not break off. -/
  isSound : Bool := true
deriving DecidableEq

namespace Body

def size? (b : Body) : Option Nat := if b.isStreamed then none else some b.content.length

/-- Reads all of a body of at most `limit` bytes. -/
def read (limit : Nat) (b : Body) : Except BodyError Bytes :=
  if limit < b.content.length then .error .tooLong
  else if b.isSound then .ok b.content
  else .error .broken

def unzipped (b : Body) : Body :=
  let r := Gzip.read b.content
  ⟨r.data, true, b.isSound && r.isSound⟩

end Body

structure Request where
  method : String
  path : String
  headers : Headers
  body : Body
deriving DecidableEq

inductive MediaType where
  | json
  | plain
  | html
deriving DecidableEq, Repr

def MediaType.text : MediaType → String
  | json => "application/json"
  | plain => "text/plain; charset=utf-8"
  | html => "text/html; charset=utf-8"

structure Response where
  status : Nat
  mediaType : Option MediaType := none
  body : Bytes := []
  /-- The body is sent as a gzip file. -/
  isZipped : Bool := false
  signature : Option String := none
  /-- The methods that the path allows. -/
  allow : Option String := none
  /-- The id of the request. -/
  trace : Option String := none
  /-- Fields of other names, and further ones of these. -/
  fields : Headers := []
deriving DecidableEq

namespace Response

def ofText (status : Nat) (type : MediaType) (text : String) : Response :=
  { status, mediaType := some type, body := Bytes.ofText text }

def ofJson (body : Bytes) : Response := { status := 200, mediaType := some .json, body }

/-- The body of an error: a code for programs, a text for people and the id of the request. -/
def errorBody (code message trace : String) : Bytes :=
  Json.object [("err_code", Json.quote code), ("err_msg", Json.quote message),
    ("trace_id", Json.quote trace)]

def failure (status : Nat) (trace code message : String) : Response :=
  { status, mediaType := some .json, body := errorBody code message trace }

/-- The answer to a body that cannot be had as a whole. -/
def ofBodyError : BodyError → Response
  | .tooLong => ofText 413 .plain "Failed to buffer the request body: length limit exceeded"
  | .broken => ofText 400 .plain "Failed to buffer the request body: the stream is corrupt"

def payload (r : Response) : Bytes := if r.isZipped then Gzip.write r.body else r.body

def headers (r : Response) : Headers :=
  (r.mediaType.map fun t => ("Content-Type", Bytes.ofText t.text)).toList ++
    (if r.isZipped then [("Content-Encoding", Bytes.ofText "gzip")] else []) ++
    (r.signature.map fun s => (signatureField, Bytes.ofText s)).toList ++
    (r.allow.map fun a => ("Allow", Bytes.ofText a)).toList ++
    (r.trace.map fun t => (traceField, Bytes.ofText t)).toList ++ r.fields

/-- The response with the id of the request in place of any other; an id that cannot be the value of a
field is left out. -/
def marked (trace : String) (r : Response) : Response :=
  { r with
    trace := if isFieldText trace then some trace else r.trace
    fields := if isFieldText trace then r.fields.without traceField else r.fields }

end Response

/-- What answers requests with the given ids; it may leave another state behind. -/
abbrev Handler (σ : Type) := String → Request → σ → Response × σ

end Telemetry.Http
