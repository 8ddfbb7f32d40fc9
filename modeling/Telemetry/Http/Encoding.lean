import Telemetry.Http.Message
import Telemetry.Text.Blank
import Telemetry.Text.Split

/-!
Encodings of bodies. A request body may be a gzip file if it says so; any other encoding is refused.
A response body is made a gzip file if the client prefers that, or likes it as much as the plain
body, and the body is not too short.
-/
namespace Telemetry.Http

inductive Encoding where
  | identity
  | gzip
deriving DecidableEq, Repr

namespace Encoding

def ofText? (s : String) : Option Encoding :=
  let s := s.toLower
  if s = "gzip" ∨ s = "x-gzip" then some gzip
  else if s = "identity" then some identity
  else none

end Encoding

/-- A weight of at most one, in thousandths: one digit, and behind a point at most three. -/
def weight? : List Char → Option Nat
  | [d] => if d = '0' then some 0 else if d = '1' then some 1000 else none
  | d :: '.' :: digits =>
    if (d = '0' ∨ d = '1') ∧ digits.length ≤ 3 ∧ digits.all Char.isDigit then
      let digit (i : Nat) : Nat := (digits.getD i '0').toNat - 48
      let w := (d.toNat - 48) * 1000 + digit 0 * 100 + digit 1 * 10 + digit 2
      if w ≤ 1000 then some w else none
    else none
  | _ => none

def parameterWeight? : List Char → Option Nat
  | 'q' :: '=' :: w => weight? w
  | 'Q' :: '=' :: w => weight? w
  | _ => none

/-- An encoding with its weight, which is one if it is not given. -/
def preference? (cs : List Char) : Option (Encoding × Nat) :=
  match Text.splitFirst? ';' cs with
  | none => (Encoding.ofText? (String.ofList (Text.trim cs))).map fun e => (e, 1000)
  | some (name, parameter) => do
    let e ← Encoding.ofText? (String.ofList (Text.trim name))
    let w ← parameterWeight? (Text.trim parameter)
    some (e, w)

/-- The preferences of a client; what is not understood does not count. -/
def preferences (h : Headers) : List (Encoding × Nat) :=
  ((h.values "Accept-Encoding").filterMap visibleText?).flatMap fun s =>
    (Text.split ',' s.toList).filterMap preference?

def weightOf (e : Encoding) (ps : List (Encoding × Nat)) : Nat :=
  ((ps.filter fun p => p.1 = e).map Prod.snd).foldl max 0

/-- The client takes gzip files, and likes plain bodies no better. -/
def acceptsGzip (h : Headers) : Bool :=
  let ps := preferences h
  0 < weightOf .gzip ps && weightOf .identity ps ≤ weightOf .gzip ps

def compressionThreshold : Nat := 32

/-- Compresses a body for a client that accepts it. -/
def Response.zippedFor (h : Headers) (r : Response) : Response :=
  { r with isZipped := acceptsGzip h && compressionThreshold ≤ r.body.length }

def Handler.compressed {σ : Type} (handle : Handler σ) : Handler σ := fun trace req s =>
  let (r, s') := handle trace req s
  (r.zippedFor req.headers, s')

/-- The request with a plain body; absent if its encoding is not known. -/
def Request.unzipped? (req : Request) : Option Request :=
  match req.headers.first? "Content-Encoding" with
  | none => some req
  | some e =>
    if e = Bytes.ofText "gzip" then some { req with body := req.body.unzipped }
    else if e = Bytes.ofText "identity" then some req
    else none

def Handler.decompressed {σ : Type} (handle : Handler σ) : Handler σ := fun trace req s =>
  match req.unzipped? with
  | some req => handle trace req s
  | none => ({ status := 415 }, s)

end Telemetry.Http
