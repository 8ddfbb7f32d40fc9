import Telemetry.Text.Bytes

/-!
RSA keys: the conditions under which they are accepted, and the operation on one number below the modulus.
-/
namespace Telemetry.Rsa

structure PublicKey where
  modulus : Nat
  exponent : Nat
deriving DecidableEq, Repr

structure PrivateKey where
  publicKey : PublicKey
  secret : Nat
  first : Nat
  second : Nat
deriving DecidableEq, Repr

def bitLength (n : Nat) : Nat := if n = 0 then 0 else n.log2 + 1

/-- `b ^ e` modulo `m`, one square and at most one product for each of the `steps` low digits of `e`. -/
def powMod (m : Nat) : Nat → Nat → Nat → Nat → Nat
  | 0, _, _, acc => acc % m
  | steps + 1, b, e, acc =>
    powMod m steps (b * b % m) (e / 2) (if e % 2 = 1 then acc * b % m else acc)

namespace PublicKey

/-- The length of a block in bytes. -/
def size (k : PublicKey) : Nat := (bitLength k.modulus + 7) / 8

def maxExponent : Nat := 2 ^ 33 - 1

/-- The modulus is odd, and the exponent is odd, above one, within its bound and below the modulus. -/
def isAcceptable (k : PublicKey) : Bool :=
  k.modulus % 2 = 1 && k.exponent % 2 = 1 && 2 ≤ k.exponent && k.exponent ≤ maxExponent &&
    k.exponent < k.modulus

def apply (k : PublicKey) (m : Nat) : Nat :=
  powMod k.modulus (bitLength k.exponent) m k.exponent 1

end PublicKey

namespace PrivateKey

def size (k : PrivateKey) : Nat := k.publicKey.size

/-- The public part is acceptable, the primes multiply to the modulus, and both exponents undo each
other modulo each prime less one. -/
def isConsistent (k : PrivateKey) : Bool :=
  k.publicKey.isAcceptable && 2 ≤ k.first && 2 ≤ k.second &&
    k.first * k.second == k.publicKey.modulus &&
    k.secret * k.publicKey.exponent % (k.first - 1) == 1 &&
    k.secret * k.publicKey.exponent % (k.second - 1) == 1

def apply (k : PrivateKey) (c : Nat) : Nat :=
  powMod k.publicKey.modulus (bitLength k.secret) c k.secret 1

end PrivateKey

end Telemetry.Rsa
