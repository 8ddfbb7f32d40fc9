import Telemetry.Net.Address
import Telemetry.Text.Blank
import Telemetry.Text.Bytes
import Telemetry.Text.Split

/-!
Trusted subnets. A subnet is the set of addresses of one family that share its first bits; a client
is let in if its address is one of them. An address of four octets is never inside a subnet of eight
groups, nor the other way round.
-/
namespace Telemetry.Net

/-- The first bits that the members share. -/
structure Subnet where
  base : Address
  length : Nat
  length_le : length ≤ base.family.width
deriving DecidableEq, Repr

inductive ClientError where
  | missing
  | invalid (text : String)
  | untrusted (address : Address)
deriving DecidableEq, Repr

def ClientError.message : ClientError → String
  | missing => "missing client address"
  | invalid text => "invalid client address '" ++ text ++ "'"
  | untrusted address =>
    "client address " ++ String.ofList address.text ++ " is outside the trusted subnet"

namespace Subnet

/-- The address with all bits behind the first `length` cleared. -/
def truncate (a : Address) (length : Nat) : Address :=
  .ofNat a.family (a.firstBits length * 2 ^ (a.family.width - length))

/-- Reads an address, a slash and a length; bits of the address behind the length do not count. -/
def ofText? (s : String) : Option Subnet := do
  let (address, length) ← Text.splitFirst? '/' (Text.trim s.toList)
  let a ← Address.ofText? address
  let n ← (Text.readNat 255 length).toOption
  if h : n ≤ (truncate a n).family.width then some ⟨truncate a n, n, h⟩ else none

def invalidMessage (s : String) : String := "invalid trusted subnet '" ++ s ++ "'"

def text (n : Subnet) : String :=
  String.ofList (n.base.text ++ '/' :: Text.natDigits n.length)

/-- Membership: the same family and the same first bits. -/
def contains (n : Subnet) (a : Address) : Bool :=
  a.family == n.base.family && a.firstBits n.length == n.base.firstBits n.length

/-- The address of a client that is let in. -/
def check (n : Subnet) (client : Option String) : Except ClientError Address :=
  match client with
  | none => .error .missing
  | some s =>
    match Text.trim s.toList with
    | [] => .error .missing
    | cs =>
      match Address.ofText? cs with
      | none => .error (.invalid (String.ofList cs))
      | some a => if n.contains a then .ok a else .error (.untrusted a)

theorem family_truncate (a : Address) (length : Nat) : (truncate a length).family = a.family := rfl

end Subnet
end Telemetry.Net
