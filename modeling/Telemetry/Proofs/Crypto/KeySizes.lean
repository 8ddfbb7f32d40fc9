import Telemetry.Crypto.Oaep

/-!
The sizes of keys and what they leave for a chunk. A key has as many bytes as the digits of its modulus fill; a
block has room for a chunk only beyond what it has besides, and without room there is no ciphertext at all.
-/
namespace Telemetry

namespace Rsa

section Octets
variable {n : Nat}

theorem lt_two_pow_bitLength (n : Nat) : n < 2 ^ bitLength n := by
  unfold bitLength
  split
  · next h => simp [h]
  · exact Nat.lt_log2_self

theorem two_pow_le_of_bitLength (h : n ≠ 0) : 2 ^ (bitLength n - 1) ≤ n := by
  rw [bitLength, if_neg h]
  exact Nat.log2_self_le h

theorem two_pow_eight_mul (n : Nat) : 2 ^ (8 * n) = 256 ^ n := Nat.pow_mul 2 8 n

theorem pow_mul_two_pow (m k : Nat) : 256 ^ m * 2 ^ k = 2 ^ (8 * m + k) := by
  rw [← two_pow_eight_mul, Nat.pow_add]

/-- The number of bytes that the digits fill. -/
def octets (n : Nat) : Nat := (bitLength n + 7) / 8

theorem lt_pow_octets (n : Nat) : n < 256 ^ octets n := by
  rw [← two_pow_eight_mul, octets]
  exact Nat.lt_of_lt_of_le (lt_two_pow_bitLength n) (Nat.pow_le_pow_right (by decide) (by omega))

theorem pow_octets_le (h : n ≠ 0) : 256 ^ (octets n - 1) ≤ n := by
  rw [← two_pow_eight_mul, octets]
  exact Nat.le_trans (Nat.pow_le_pow_right (by decide) (by omega)) (two_pow_le_of_bitLength h)

theorem bitLength_le {b : Nat} (h : n < 2 ^ b) : bitLength n ≤ b := by
  by_cases hn : n = 0
  · simp [hn, bitLength]
  · have hle := two_pow_le_of_bitLength hn
    have hlt := (Nat.pow_lt_pow_iff_right (by decide)).1 (Nat.lt_of_le_of_lt hle h)
    omega

end Octets

namespace PublicKey
variable {k : PublicKey}

theorem modulus_lt (k : PublicKey) : k.modulus < 256 ^ k.size := lt_pow_octets _

theorem le_modulus (h : k.modulus ≠ 0) : 256 ^ (k.size - 1) ≤ k.modulus := pow_octets_le h

end PublicKey

end Rsa

namespace Oaep

section Sizes
variable {k : Rsa.PublicKey} {size : Nat}

theorem chunkSize?_eq_some_iff : chunkSize? k = some size ↔ k.size = overhead + size := by
  have hoverhead : overhead = 66 := rfl
  unfold chunkSize?
  split
  · rw [Option.some.injEq]
    omega
  · exact iff_of_false nofun (by omega)

theorem chunkSize?_eq_none_iff : chunkSize? k = none ↔ k.size < overhead := by
  unfold chunkSize?
  split
  · next h => exact iff_of_false nofun (Nat.not_lt.2 h)
  · next h => exact iff_of_true rfl (Nat.lt_of_not_le h)

/-- A key whose modulus is longer than what a block has besides its chunk has chunks of some size. -/
theorem exists_chunkSize (h : overhead < k.size) : ∃ size, 0 < size ∧ chunkSize? k = some size :=
  ⟨k.size - overhead, Nat.sub_pos_of_lt h, if_pos (Nat.le_of_lt h)⟩

theorem exists_chunkSize_iff : (∃ size, 0 < size ∧ chunkSize? k = some size) ↔ overhead < k.size := by
  constructor
  · rintro ⟨size, hpos, hsize⟩
    rw [chunkSize?_eq_some_iff] at hsize
    omega
  · exact exists_chunkSize

theorem encryptFor?_of_chunkSize? (h : chunkSize? k = some size) (hsize : 0 < size) (seeds : Nat → Bytes)
    (plain : Bytes) : encryptFor? k seeds plain = some (encrypt k size seeds plain) := by
  unfold encryptFor?
  rw [h]
  cases size with
  | zero => cases hsize
  | succ n => rfl

theorem encryptFor?_isSome_iff {seeds : Nat → Bytes} {plain : Bytes} :
    (encryptFor? k seeds plain).isSome ↔ overhead < k.size := by
  cases hchunk : chunkSize? k with
  | none =>
    have hshort := chunkSize?_eq_none_iff.1 hchunk
    exact iff_of_false (by simp [encryptFor?, hchunk]) (Nat.not_lt.2 (Nat.le_of_lt hshort))
  | some size =>
    rw [chunkSize?_eq_some_iff.1 hchunk]
    cases size with
    | zero => simp [encryptFor?, hchunk]
    | succ n => simp [encryptFor?, hchunk]

end Sizes

end Oaep
end Telemetry
