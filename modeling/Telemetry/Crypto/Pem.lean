import Telemetry.Crypto.Base64
import Telemetry.Text.Bytes

/-!
PEM texts: a beginning line with a label, lines of base64 and an ending line with the same label.
Text before the beginning line is passed over, but a NUL there is refused, and nothing may follow the
ending line except one line end. Every base64 line but the last has 64 characters.
-/
namespace Telemetry.Pem

def beginMark : Bytes := Bytes.ofText "-----BEGIN "
def endMark : Bytes := Bytes.ofText "-----END "
def dashes : Bytes := Bytes.ofText "-----"

def dropPreamble? : Bool → Bytes → Option Bytes
  | _, [] => none
  | atLineStart, b :: bs =>
    if atLineStart && beginMark.isPrefixOf (b :: bs) then some (b :: bs)
    else if b == 0 then none
    else dropPreamble? (b == Ascii.lineFeed) bs

/-- What follows a line end: LF, CR LF or CR. -/
def dropLineEnd? : Bytes → Option Bytes
  | Ascii.lineFeed :: rest => some rest
  | Ascii.carriageReturn :: Ascii.lineFeed :: rest => some rest
  | Ascii.carriageReturn :: rest => some rest
  | _ => none

def dropLastLineEnd? (bs : Bytes) : Option Bytes :=
  match bs.reverse with
  | Ascii.lineFeed :: Ascii.carriageReturn :: rest => some rest.reverse
  | Ascii.lineFeed :: rest => some rest.reverse
  | Ascii.carriageReturn :: rest => some rest.reverse
  | _ => none

def body? (label : Bytes) (bs : Bytes) : Option Bytes := do
  let bs ← dropPreamble? true bs
  let bs ← Bytes.dropBeginning? (beginMark ++ label ++ dashes) bs
  let bs ← dropLineEnd? bs
  let bs := (dropLastLineEnd? bs).getD bs
  let bs ← Bytes.dropEnd? (endMark ++ label ++ dashes) bs
  dropLastLineEnd? bs

/-- Joins lines of 64 bytes, and a last one that may be shorter and may have a line end. -/
def joinLines? : Nat → Bytes → Option Bytes
  | 0, _ => none
  | fuel + 1, bs =>
    if bs.length ≤ 64 then some ((dropLastLineEnd? bs).getD bs)
    else do
      let rest ← dropLineEnd? (bs.drop 64)
      let tail ← joinLines? fuel rest
      some (bs.take 64 ++ tail)

/-- The content of a PEM text with a label. -/
def decode? (label : Bytes) (bs : Bytes) : Option Bytes := do
  let body ← body? label bs
  if body.isEmpty then none
  else
    let base64 ← joinLines? (body.length + 1) body
    Base64.decode? (base64.map fun b => Char.ofNat b.toNat)

end Telemetry.Pem
