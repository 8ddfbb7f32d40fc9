import Telemetry.Crypto.Base64
import Telemetry.Crypto.Sha256
import Telemetry.Text.Blank

/-!
Signatures of message bodies: the keyed digest HMAC of the body, in base64. A key that is longer than a
block of the digest is itself digested first. A signature text is accepted if, blanks at its ends apart, it
is the text that signing gives.
-/
namespace Telemetry

namespace Sha256

def blockKey (key : Bytes) : Bytes :=
  let k := if 64 < key.length then digest key else key
  k ++ List.replicate (64 - k.length) 0

def hmac (key message : Bytes) : Bytes :=
  let k := blockKey key
  digest (k.map (· ^^^ 0x5c) ++ digest (k.map (· ^^^ 0x36) ++ message))

end Sha256

namespace Signature

inductive Error where
  /-- The text is not base64. -/
  | malformed
  /-- The text is base64, of something else than the digest. -/
  | mismatch
deriving DecidableEq, Repr

def Error.message : Error → String
  | malformed => "signature header is not valid base64"
  | mismatch => "signature mismatch"

def sign (body key : Bytes) : List Char := Base64.encode (Sha256.hmac key body)

/-- Checks a signature text against a body. -/
def verify (body key : Bytes) (header : List Char) : Except Error Unit :=
  match Base64.decode? (Text.trim header) with
  | none => .error .malformed
  | some digest => if digest = Sha256.hmac key body then .ok () else .error .mismatch

end Signature
end Telemetry
