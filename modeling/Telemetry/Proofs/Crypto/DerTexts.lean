import Telemetry.Crypto.KeyFile
import Telemetry.Proofs.Crypto.KeySizes
import Telemetry.Proofs.Text.Octets

/-!
Public keys in their distinguished encoding. A value is written as its tag, the length of its content in the
shortest form and the content, a number with as many bytes as its digits and one for the sign need; both forms of
a public key are read back from what is written so.
-/
namespace Telemetry

theorem Bytes.dropBeginning?_append (start rest : Bytes) :
    dropBeginning? start (start ++ rest) = some rest := by
  have h : start.isPrefixOf (start ++ rest) := List.isPrefixOf_iff_prefix.2 (List.prefix_append start rest)
  rw [dropBeginning?, if_pos h, List.drop_left]

namespace Der
open Rsa

def writeLength (n : Nat) : Bytes :=
  if n < 128 then [UInt8.ofNat n] else UInt8.ofNat (128 + octets n) :: Bytes.bigEndian (octets n) n

def write (tag : UInt8) (content : Bytes) : Bytes := tag :: (writeLength content.length ++ content)

/-- The bytes of a number, the highest bit of which is the sign. -/
def natContent (n : Nat) : Bytes := Bytes.bigEndian (bitLength n / 8 + 1) n

def writeNat (n : Nat) : Bytes := write 2 (natContent n)

section Values
variable {n : Nat} {tag : UInt8} {content : Bytes}

theorem octets_le_four (h : n < 2 ^ 28) : octets n ≤ 4 := by
  have hbits := bitLength_le h
  rw [octets]
  omega

theorem length?_writeLength (h : n < 2 ^ 28) (rest : Bytes) :
    length? (writeLength n ++ rest) = some (n, rest) := by
  have hoctets := octets_le_four h
  unfold writeLength
  split
  · next hshort =>
    have hbyte : (UInt8.ofNat n).toNat = n := by
      rw [UInt8.toNat_ofNat']
      omega
    have hlt : UInt8.ofNat n < 128 := by
      rw [UInt8.lt_iff_toNat_lt, hbyte]
      exact hshort
    simp [length?, hlt, hbyte]
  · next hlong =>
    have hbound := lt_pow_octets n
    have hleast : 256 ^ (octets n - 1) ≤ n := pow_octets_le (by omega)
    have hpos : octets n ≠ 0 := by
      intro hzero
      rw [hzero, Nat.pow_zero] at hbound
      omega
    have hbyte : (UInt8.ofNat (128 + octets n)).toNat = 128 + octets n := by
      rw [UInt8.toNat_ofNat']
      omega
    have hlt : ¬ UInt8.ofNat (128 + octets n) < 128 := by
      rw [UInt8.lt_iff_toNat_lt, hbyte]
      simp
    have htake : (Bytes.bigEndian (octets n) n ++ rest).take (octets n) = Bytes.bigEndian (octets n) n :=
      List.take_left' (Bytes.length_bigEndian _ _)
    have hdrop : (Bytes.bigEndian (octets n) n ++ rest).drop (octets n) = rest :=
      List.drop_left' (Bytes.length_bigEndian _ _)
    simp only [List.cons_append, length?, hlt, if_false, hbyte, Nat.add_sub_cancel_left, htake, hdrop,
      Bytes.toNat_bigEndian hbound, Bytes.length_bigEndian]
    rw [if_neg (by omega)]

theorem length_writeLength_le (h : n < 2 ^ 28) : (writeLength n).length ≤ 5 := by
  have hoctets := octets_le_four h
  unfold writeLength
  split
  · simp
  · rw [List.length_cons, Bytes.length_bigEndian]
    omega

theorem length_write_le (tag : UInt8) (h : content.length < 2 ^ 28) :
    (write tag content).length ≤ content.length + 6 := by
  have hlength := length_writeLength_le h
  rw [write, List.length_cons, List.length_append]
  omega

theorem value?_write (htag : isTag tag) (h : content.length < 2 ^ 28) (rest : Bytes) :
    value? (write tag content ++ rest) = some (tag, content, rest) := by
  have hlength : length? (writeLength content.length ++ (content ++ rest)) = _ := length?_writeLength h _
  rw [write, List.cons_append, List.append_assoc, value?, hlength]
  simp [htag]

theorem content?_write (htag : isTag tag) (h : content.length < 2 ^ 28) (rest : Bytes) :
    content? tag (write tag content ++ rest) = some (content, rest) := by
  simp [content?, value?_write htag h]

theorem only?_write (htag : isTag tag) (h : content.length < 2 ^ 28) :
    only? tag (write tag content) = some content := by
  have hcontent := content?_write htag h []
  rw [List.append_nil] at hcontent
  simp [only?, hcontent]

end Values

section Numbers
variable {n : Nat}

theorem length_natContent (n : Nat) : (natContent n).length = bitLength n / 8 + 1 := Bytes.length_bigEndian _ _

theorem toNat_natContent (n : Nat) : Bytes.toNat (natContent n) = n := by
  refine Bytes.toNat_bigEndian (Nat.lt_of_lt_of_le (lt_two_pow_bitLength n) ?_)
  rw [← two_pow_eight_mul]
  exact Nat.pow_le_pow_right (by decide) (by omega)

/-- A number of two bytes or more is read if it needs the first of them and does not reach its highest bit. -/
theorem natContent?_of_bounds {a b : UInt8} {rest : Bytes}
    (hlow : 256 ^ rest.length * 2 ^ 7 ≤ Bytes.toNat (a :: b :: rest))
    (hhigh : Bytes.toNat (a :: b :: rest) < 256 ^ (rest.length + 1) * 2 ^ 7) :
    natContent? (a :: b :: rest) = some (Bytes.toNat (a :: b :: rest)) := by
  have hrest := Bytes.toNat_lt rest
  have hvalue : Bytes.toNat (a :: b :: rest) = a.toNat * 256 ^ (rest.length + 1) + Bytes.toNat (b :: rest) :=
    Bytes.toNat_cons a (b :: rest)
  have ha : a < 128 := by
    rw [UInt8.lt_iff_toNat_lt]
    refine Nat.lt_of_not_le fun hle => ?_
    have hmul : 2 ^ 7 * 256 ^ (rest.length + 1) ≤ a.toNat * 256 ^ (rest.length + 1) := Nat.mul_le_mul_right _ hle
    rw [Nat.mul_comm] at hmul
    omega
  by_cases hzero : a = 0
  · subst hzero
    rw [UInt8.toNat_zero, Nat.zero_mul, Nat.zero_add] at hvalue
    rw [hvalue, Bytes.toNat_cons] at hlow
    have hb : ¬ b < 128 := by
      intro hlt
      have hmul : (b.toNat + 1) * 256 ^ rest.length ≤ 2 ^ 7 * 256 ^ rest.length :=
        Nat.mul_le_mul_right _ (UInt8.lt_iff_toNat_lt.1 hlt)
      rw [Nat.add_mul, Nat.one_mul, Nat.mul_comm (2 ^ 7)] at hmul
      omega
    simp [natContent?, hb, hvalue]
  · rw [natContent?, if_neg hzero, if_pos ha]

/-- The highest bit of what is written is clear, and the first byte is zero only where the second one would be
taken for a sign. -/
theorem natContent?_natContent (n : Nat) : natContent? (natContent n) = some n := by
  have hlength := length_natContent n
  have hvalue := toNat_natContent n
  have hdigits := lt_two_pow_bitLength n
  match natContent n, hlength, hvalue with
  | [], hlength, _ => simp at hlength
  | [b], hlength, hvalue =>
    have hbits : bitLength n ≤ 7 := by
      simp only [List.length_cons, List.length_nil] at hlength
      omega
    have hn : n < 2 ^ 7 := Nat.lt_of_lt_of_le hdigits (Nat.pow_le_pow_right (by decide) hbits)
    have hb : b.toNat = n := by simpa [Bytes.toNat] using hvalue
    have hlt : b < 128 := by
      rw [UInt8.lt_iff_toNat_lt, hb]
      exact hn
    simp [natContent?, hlt, hb]
  | a :: b :: rest, hlength, hvalue =>
    have hbits : bitLength n / 8 = rest.length + 1 := by
      simp only [List.length_cons] at hlength
      omega
    have hne : n ≠ 0 := by
      rintro rfl
      simp [bitLength] at hbits
    have hhigh : n < 256 ^ (rest.length + 1) * 2 ^ 7 := by
      have hle : 2 ^ bitLength n ≤ 2 ^ (8 * (rest.length + 1) + 7) := Nat.pow_le_pow_right (by decide) (by omega)
      rw [pow_mul_two_pow]
      exact Nat.lt_of_lt_of_le hdigits hle
    have hlow : 256 ^ rest.length * 2 ^ 7 ≤ n := by
      have hle : 2 ^ (8 * rest.length + 7) ≤ 2 ^ (bitLength n - 1) := Nat.pow_le_pow_right (by decide) (by omega)
      rw [pow_mul_two_pow]
      exact Nat.le_trans hle (two_pow_le_of_bitLength hne)
    rw [natContent?_of_bounds (hvalue.symm ▸ hlow) (hvalue.symm ▸ hhigh), hvalue]

theorem nat?_writeNat (h : bitLength n < 2 ^ 28) (rest : Bytes) :
    nat? (writeNat n ++ rest) = some (n, rest) := by
  have hlength : (natContent n).length < 2 ^ 28 := by
    rw [length_natContent]
    omega
  have htag : isTag 2 := by decide
  simp [nat?, writeNat, content?_write htag hlength, natContent?_natContent]

theorem nats?_writeNats {e : Nat} (hn : bitLength n < 2 ^ 28) (he : bitLength e < 2 ^ 28) :
    nats? 2 (writeNat n ++ writeNat e) = some [n, e] := by
  have hlast := nat?_writeNat he []
  rw [List.append_nil] at hlast
  simp [nats?, nat?_writeNat hn, hlast]

theorem length_writeNat_le (h : bitLength n < 2 ^ 28) : (writeNat n).length ≤ bitLength n / 8 + 7 := by
  have hlength := length_natContent n
  have hwrite := length_write_le 2 (show (natContent n).length < 2 ^ 28 by omega)
  rw [writeNat]
  omega

end Numbers
end Der

namespace Rsa
namespace PublicKey

def toPlain (k : PublicKey) : Bytes := Der.write 0x30 (Der.writeNat k.modulus ++ Der.writeNat k.exponent)

def toNamed (k : PublicKey) : Bytes := Der.write 0x30 (algorithm ++ Der.write 0x03 (0 :: k.toPlain))

variable {k : PublicKey}

theorem length_numbers_le (hmodulus : bitLength k.modulus ≤ maxPublicBits) (hexponent : k.exponent ≤ maxExponent) :
    bitLength k.exponent ≤ 33 ∧ (Der.writeNat k.modulus ++ Der.writeNat k.exponent).length ≤ 600 := by
  have hbits : bitLength k.exponent ≤ 33 := bitLength_le (Nat.lt_of_le_of_lt hexponent (by decide))
  have hmax : maxPublicBits = 4096 := rfl
  have hfirst := Der.length_writeNat_le (n := k.modulus) (by omega)
  have hsecond := Der.length_writeNat_le (n := k.exponent) (by omega)
  rw [List.length_append]
  omega

theorem plainPublic?_toPlain (hmodulus : bitLength k.modulus ≤ maxPublicBits)
    (hexponent : k.exponent ≤ maxExponent) : plainPublic? k.toPlain = some k := by
  obtain ⟨hbits, hlength⟩ := length_numbers_le hmodulus hexponent
  have hmax : maxPublicBits = 4096 := rfl
  have honly : Der.only? 0x30 k.toPlain = some (Der.writeNat k.modulus ++ Der.writeNat k.exponent) :=
    Der.only?_write (by decide) (Nat.lt_of_le_of_lt hlength (by decide))
  have hnats := Der.nats?_writeNats (n := k.modulus) (e := k.exponent) (by omega) (by omega)
  simp [plainPublic?, honly, hnats]

theorem length_toPlain_le (hmodulus : bitLength k.modulus ≤ maxPublicBits) (hexponent : k.exponent ≤ maxExponent) :
    k.toPlain.length ≤ 606 := by
  obtain ⟨-, hlength⟩ := length_numbers_le hmodulus hexponent
  have hwrite := Der.length_write_le 0x30 (Nat.lt_of_le_of_lt hlength (by decide))
  rw [toPlain]
  omega

theorem namedPublic?_toNamed (hmodulus : bitLength k.modulus ≤ maxPublicBits)
    (hexponent : k.exponent ≤ maxExponent) : namedPublic? k.toNamed = some k := by
  have hplain := length_toPlain_le hmodulus hexponent
  have hbits : (0 :: k.toPlain).length < 2 ^ 28 := by
    rw [List.length_cons]
    omega
  have hcontent : (algorithm ++ Der.write 0x03 (0 :: k.toPlain)).length < 2 ^ 28 := by
    have hwrite := Der.length_write_le 0x03 hbits
    have halgorithm : algorithm.length = 15 := rfl
    rw [List.length_cons] at hwrite
    rw [List.length_append]
    omega
  have honly : Der.only? 0x30 k.toNamed = some (algorithm ++ Der.write 0x03 (0 :: k.toPlain)) :=
    Der.only?_write (by decide) hcontent
  have hstring : Der.only? 0x03 (Der.write 0x03 (0 :: k.toPlain)) = some (0 :: k.toPlain) :=
    Der.only?_write (by decide) hbits
  simp [namedPublic?, honly, Bytes.dropBeginning?_append, hstring, Der.bits?,
    plainPublic?_toPlain hmodulus hexponent]

end PublicKey
end Rsa
end Telemetry
