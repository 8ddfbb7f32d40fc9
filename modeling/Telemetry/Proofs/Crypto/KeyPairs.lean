import Mathlib.FieldTheory.Finite.Basic
import Mathlib.NumberTheory.LucasPrimality
import Telemetry.Proofs.Crypto.KeySizes
import Telemetry.Proofs.Crypto.Padding
import Telemetry.Proofs.Text.Octets

/-!
Pairs of keys. Where the two primes of a private key are prime and different, raising a number below the modulus
to both exponents, one after the other, gives the number back; so a block that has been encrypted for the owner
gives back its chunk.
-/
namespace Telemetry

namespace Rsa

section Powers
variable {m steps b e acc : Nat}

/-- The power is built up from the low digits of the exponent; the digits that are left to do always fit in the
steps that are left. -/
theorem powMod_eq (h : e < 2 ^ steps) : powMod m steps b e acc = acc * b ^ e % m := by
  induction steps generalizing b e acc with
  | zero =>
    obtain rfl : e = 0 := by simpa using h
    simp [powMod]
  | succ steps ih =>
    have hhalf : e / 2 < 2 ^ steps := by
      rw [Nat.pow_succ] at h
      omega
    have hrest : ∀ a, a * (b * b % m) ^ (e / 2) % m = a * b ^ (2 * (e / 2)) % m := by
      intro a
      rw [Nat.mul_mod, ← Nat.pow_mod, ← Nat.mul_mod, Nat.pow_mul, Nat.pow_two]
    rw [powMod, ih hhalf, hrest]
    split
    · next hodd =>
      have he : e = 2 * (e / 2) + 1 := by omega
      conv => rhs; rw [he, Nat.pow_succ']
      rw [Nat.mod_mul_mod, Nat.mul_assoc]
    · next heven =>
      have he : 2 * (e / 2) = e := by omega
      rw [he]

end Powers

theorem PublicKey.apply_eq (k : PublicKey) (m : Nat) : k.apply m = m ^ k.exponent % k.modulus := by
  rw [apply, powMod_eq (lt_two_pow_bitLength _), Nat.one_mul]

theorem pow_modEq_self {p a : Nat} (hp : p.Prime) (ha : a % (p - 1) = 1) (x : Nat) :
    x ^ a ≡ x [MOD p] := by
  have hsplit : a = (p - 1) * (a / (p - 1)) + 1 := by
    have h := Nat.div_add_mod a (p - 1)
    omega
  -- Euler's theorem says nothing about the multiples of `p`, which are all zero modulo `p`
  by_cases hx : p ∣ x
  · have hpow : p ∣ x ^ a := hx.trans (dvd_pow_self x (by omega))
    exact ((Nat.modEq_zero_iff_dvd).2 hpow).trans ((Nat.modEq_zero_iff_dvd).2 hx).symm
  · have hone : x ^ (p - 1) ≡ 1 [MOD p] := by
      have h := Nat.ModEq.pow_totient (((Nat.Prime.coprime_iff_not_dvd hp).2 hx).symm)
      rwa [Nat.totient_prime hp] at h
    have hmany : (x ^ (p - 1)) ^ (a / (p - 1)) ≡ 1 [MOD p] := by
      have h := hone.pow (a / (p - 1))
      rwa [Nat.one_pow] at h
    rw [hsplit, Nat.pow_succ, Nat.pow_mul]
    simpa using hmany.mul_right x

/-- Lucas' test where the number before has two and one more prime as factors, the powers taken as for a key. -/
theorem prime_of_generator {p c n a : Nat} (hc : c.Prime) (hp : p - 1 = c * 2 ^ n)
    (hone : (PublicKey.mk p (p - 1)).apply a = 1) (htwo : (PublicKey.mk p ((p - 1) / 2)).apply a ≠ 1)
    (hother : (PublicKey.mk p ((p - 1) / c)).apply a ≠ 1) : p.Prime := by
  rw [PublicKey.apply_eq] at hone htwo hother
  have hlarge : 1 < p := by
    have hprod : 0 < c * 2 ^ n := Nat.mul_pos hc.pos (Nat.two_pow_pos n)
    omega
  have hpow : ∀ e, (a : ZMod p) ^ e = 1 ↔ a ^ e % p = 1 := by
    intro e
    have hcast := ZMod.natCast_eq_natCast_iff' (a ^ e) 1 p
    rwa [Nat.mod_eq_of_lt hlarge, Nat.cast_pow, Nat.cast_one] at hcast
  refine lucas_primality p a ((hpow _).2 hone) fun q hq hdvd => ?_
  rw [ne_eq, hpow]
  rw [hp] at hdvd
  rcases (Nat.Prime.dvd_mul hq).1 hdvd with h | h
  · rwa [(Nat.prime_dvd_prime_iff_eq hq hc).1 h]
  · rwa [(Nat.prime_dvd_prime_iff_eq hq Nat.prime_two).1 (hq.dvd_of_dvd_pow h)]

namespace PrivateKey
variable {k : PrivateKey}

/-- The parts of a private key are what they are taken for. -/
structure IsPair (k : PrivateKey) : Prop where
  consistent : k.isConsistent
  first : k.first.Prime
  second : k.second.Prime
  different : k.first ≠ k.second

theorem apply_eq (k : PrivateKey) (c : Nat) : k.apply c = c ^ k.secret % k.publicKey.modulus := by
  rw [apply, powMod_eq (lt_two_pow_bitLength _), Nat.one_mul]

theorem IsPair.parts (h : k.IsPair) : k.first * k.second = k.publicKey.modulus ∧
    k.secret * k.publicKey.exponent % (k.first - 1) = 1 ∧
    k.secret * k.publicKey.exponent % (k.second - 1) = 1 := by
  have hconsistent := h.consistent
  simp only [isConsistent, Bool.and_eq_true, beq_iff_eq] at hconsistent
  obtain ⟨⟨⟨-, hmodulus⟩, hfirst⟩, hsecond⟩ := hconsistent
  exact ⟨hmodulus, hfirst, hsecond⟩

theorem IsPair.apply_apply (h : k.IsPair) {m : Nat} (hm : m < k.publicKey.modulus) :
    k.apply (k.publicKey.apply m) = m := by
  obtain ⟨hmodulus, hfirst, hsecond⟩ := h.parts
  have hcoprime : k.first.Coprime k.second := (Nat.coprime_primes h.first h.second).2 h.different
  have hpow : m ^ (k.secret * k.publicKey.exponent) ≡ m [MOD k.publicKey.modulus] := by
    rw [← hmodulus]
    exact (Nat.modEq_and_modEq_iff_modEq_mul hcoprime).1
      ⟨pow_modEq_self h.first hfirst m, pow_modEq_self h.second hsecond m⟩
  rw [apply_eq, PublicKey.apply_eq, ← Nat.pow_mod, ← Nat.pow_mul, Nat.mul_comm]
  exact Nat.mod_eq_of_modEq hpow hm

end PrivateKey

end Rsa

namespace Oaep
open Rsa
variable {k : PrivateKey}

/-- Blocks give back the chunks that they were made of. -/
def Inverts (k : PrivateKey) : Prop :=
  ∀ seed chunk, seed.length = digestSize → chunk.length ≤ k.size - overhead →
    decryptBlock? k (encryptBlock k.publicKey seed chunk) = some chunk

/-- A padded block starts with a zero, so its number is below the modulus. -/
theorem toNat_pad_lt {k : PublicKey} {seed chunk : Bytes} (hsize : overhead ≤ k.size)
    (hchunk : chunk.length ≤ k.size - overhead) (hseed : seed.length = digestSize)
    (hmodulus : k.modulus ≠ 0) : Bytes.toNat (pad k.size seed chunk) < k.modulus := by
  have hlength := length_pad hsize hchunk hseed
  obtain ⟨masked, -, hpad, -⟩ := exists_pad hsize hchunk hseed
  rw [hpad, List.length_cons] at hlength
  rw [hpad, Bytes.toNat_cons, UInt8.toNat_zero, Nat.zero_mul, Nat.zero_add]
  refine Nat.lt_of_lt_of_le (Bytes.toNat_lt _) (Nat.le_trans ?_ (PublicKey.le_modulus hmodulus))
  exact Nat.le_of_eq (congrArg (256 ^ ·) (by omega))

/-- With a pair of keys whose blocks have room every chunk that fits comes back. -/
theorem inverts_of_isPair (h : k.IsPair) (hsize : overhead ≤ k.size) : Inverts k := by
  intro seed chunk hseed hchunk
  have hmodulus : k.publicKey.modulus ≠ 0 := by
    rw [← h.parts.1]
    exact Nat.mul_ne_zero h.first.ne_zero h.second.ne_zero
  have hsize' : overhead ≤ k.publicKey.size := hsize
  have hnumber := toNat_pad_lt hsize' hchunk hseed hmodulus
  have happly : k.publicKey.apply (Bytes.toNat (pad k.publicKey.size seed chunk)) < k.publicKey.modulus := by
    rw [PublicKey.apply_eq]
    exact Nat.mod_lt _ (Nat.pos_of_ne_zero hmodulus)
  have hblock : Bytes.toNat (encryptBlock k.publicKey seed chunk) =
      k.publicKey.apply (Bytes.toNat (pad k.publicKey.size seed chunk)) :=
    Bytes.toNat_bigEndian (Nat.lt_trans happly (PublicKey.modulus_lt _))
  have hpadded : Bytes.bigEndian k.size (Bytes.toNat (pad k.publicKey.size seed chunk)) =
      pad k.publicKey.size seed chunk := by
    conv => rhs; rw [← Bytes.bigEndian_toNat (pad k.publicKey.size seed chunk), length_pad hsize' hchunk hseed]
    rfl
  simp only [decryptBlock?, hblock, h.apply_apply hnumber, hpadded, if_neg (Nat.not_le.2 happly), ne_eq,
    not_true_eq_false, if_false]
  exact unpad?_pad hsize' hchunk hseed

end Oaep
end Telemetry
