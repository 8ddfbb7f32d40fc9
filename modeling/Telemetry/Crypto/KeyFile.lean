import Telemetry.Crypto.Der
import Telemetry.Crypto.Pem
import Telemetry.Crypto.Rsa
import Telemetry.Store.Disk

/-!
Keys from files. An RSA key has two written forms, of which one names the algorithm, and both stand in PEM
texts. A file that cannot be read and a text that is no key are told apart.
-/
namespace Telemetry

namespace Rsa

/-- The algorithm of RSA keys in a form that names it: its object identifier and no parameters. -/
def algorithm : Bytes :=
  [0x30, 0x0d, 0x06, 0x09, 0x2a, 0x86, 0x48, 0x86, 0xf7, 0x0d, 0x01, 0x01, 0x01, 0x05, 0x00]

/-- A public key as a sequence of its two numbers. -/
def plainPublic? (bs : Bytes) : Option PublicKey := do
  let content ← Der.only? 0x30 bs
  match ← Der.nats? 2 content with
  | [n, e] => some ⟨n, e⟩
  | _ => none

/-- A public key in the form that names the algorithm. -/
def namedPublic? (bs : Bytes) : Option PublicKey := do
  let content ← Der.only? 0x30 bs
  let rest ← Bytes.dropBeginning? algorithm content
  let content ← Der.only? 0x03 rest
  let bits ← Der.bits? content
  plainPublic? bits

/-- A private key of two primes as a sequence of a version and eight numbers. -/
def plainPrivate? (bs : Bytes) : Option PrivateKey := do
  let content ← Der.only? 0x30 bs
  match ← Der.nats? 9 content with
  | [0, n, e, d, p, q, _, _, _] => some ⟨⟨n, e⟩, d, p, q⟩
  | _ => none

/-- Looks for the public key among the numbered fields: fields with smaller numbers are passed over.
Gives whether it is there, and what follows. -/
def publicField? : Nat → Bytes → Option (Bool × Bytes)
  | 0, _ => none
  | _, [] => some (false, [])
  | fuel + 1, tag :: rest =>
    if !Der.isTag tag then none
    else if !Der.isNumbered tag || 1 < Der.number tag then some (false, tag :: rest)
    else do
      let (_, content, behind) ← Der.value? (tag :: rest)
      if Der.number tag = 1 then
        if Der.isConstructed tag then none
        else (Der.bits? content).map fun _ => (true, behind)
      else publicField? fuel behind

/-- Nothing but numbered fields that each hold one whole value. -/
def areFields : Nat → Bytes → Bool
  | _, [] => true
  | 0, _ => false
  | fuel + 1, bs =>
    match Der.value? bs with
    | none => false
    | some (tag, content, rest) =>
      Der.isNumbered tag && Der.isConstructed tag &&
        ((Der.value? content).any fun (_, _, behind) => behind.isEmpty) && areFields fuel rest

/-- A private key in the form that names the algorithm; version one has the public key with it. -/
def namedPrivate? (bs : Bytes) : Option PrivateKey := do
  let content ← Der.only? 0x30 bs
  let (version, rest) ← Der.nat? content
  let rest ← Bytes.dropBeginning? algorithm rest
  let (key, rest) ← Der.content? 0x04 rest
  let (hasPublic, rest) ← publicField? (rest.length + 1) rest
  if 1 < version ∨ hasPublic ≠ (version == 1) ∨ !areFields rest.length rest then none
  else plainPrivate? key

def maxPublicBits : Nat := 4096

def publicOfPem? (pem : Bytes) : Option PublicKey := do
  let k ← ((Pem.decode? (Bytes.ofText "PUBLIC KEY") pem).bind namedPublic?).or
    ((Pem.decode? (Bytes.ofText "RSA PUBLIC KEY") pem).bind plainPublic?)
  if k.isAcceptable ∧ bitLength k.modulus ≤ maxPublicBits then some k else none

def privateOfPem? (pem : Bytes) : Option PrivateKey := do
  let k ← ((Pem.decode? (Bytes.ofText "PRIVATE KEY") pem).bind namedPrivate?).or
    ((Pem.decode? (Bytes.ofText "RSA PRIVATE KEY") pem).bind plainPrivate?)
  if k.isConsistent then some k else none

end Rsa

inductive KeyFileError where
  | unreadable (path : String) (cause : FileError)
  | malformed (path : String)
deriving DecidableEq, Repr

def KeyFileError.message : KeyFileError → String
  | unreadable path cause => "failed to read key file '" ++ path ++ "': " ++ cause.message
  | malformed path => "malformed PEM key in '" ++ path ++ "'"

def Disk.readKey {α : Type} (d : Disk) (ofPem? : Bytes → Option α) (path : String) :
    Except KeyFileError α :=
  match d.readText (.ofText path) with
  | .error e => .error (.unreadable path e)
  | .ok s =>
    match ofPem? (Bytes.ofText s) with
    | some k => .ok k
    | none => .error (.malformed path)

end Telemetry
