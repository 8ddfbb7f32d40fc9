import Telemetry.Text.Bytes

/-!
Octets. A byte string is the digits of its number to the base of 256, so that numbers below a power of the
base and byte strings of one length are the same. With every octet of a text escaped by a percent sign, the
text is made of percent signs and digits alone, so nothing in it can be taken for a separator.
-/
namespace Telemetry

namespace Bytes

theorem foldl_octets (b : Bytes) (n : Nat) :
    b.foldl (fun acc x => acc * 256 + x.toNat) n = n * 256 ^ b.length + toNat b := by
  induction b generalizing n with
  | nil => simp [toNat]
  | cons x b ih =>
    have hb : toNat (x :: b) = _ := ih (0 * 256 + x.toNat)
    rw [List.foldl_cons, ih, hb, List.length_cons, Nat.pow_succ', Nat.zero_mul, Nat.zero_add,
      Nat.add_mul, Nat.mul_assoc, Nat.add_assoc]

theorem toNat_cons (x : UInt8) (b : Bytes) : toNat (x :: b) = x.toNat * 256 ^ b.length + toNat b := by
  rw [toNat, List.foldl_cons, foldl_octets, Nat.zero_mul, Nat.zero_add]

theorem toNat_append (a b : Bytes) : toNat (a ++ b) = toNat a * 256 ^ b.length + toNat b := by
  rw [toNat, List.foldl_append, foldl_octets]
  rfl

theorem toNat_lt (b : Bytes) : toNat b < 256 ^ b.length := by
  induction b with
  | nil => decide
  | cons x b ih =>
    have hx : x.toNat + 1 ≤ 256 := x.toNat_lt
    have hmul := Nat.mul_le_mul_right (256 ^ b.length) hx
    rw [toNat_cons, List.length_cons, Nat.pow_succ']
    rw [Nat.succ_mul] at hmul
    omega

theorem toNat_reverse (b : Bytes) : toNat b.reverse = ofLittleEndian b := by
  induction b with
  | nil => rfl
  | cons x b ih =>
    rw [List.reverse_cons, toNat_append, ih, ofLittleEndian, List.length_singleton, toNat_cons]
    simp only [List.length_nil, Nat.pow_zero, Nat.pow_one, toNat, List.foldl_nil]
    omega

theorem toNat_bigEndian {n v : Nat} (h : v < 256 ^ n) : toNat (bigEndian n v) = v := by
  rw [bigEndian, toNat_reverse, ofLittleEndian_littleEndian n v h]

theorem littleEndian_ofLittleEndian (b : Bytes) : littleEndian b.length (ofLittleEndian b) = b := by
  induction b with
  | nil => rfl
  | cons x b ih =>
    have hx := x.toNat_lt
    have hdigit : (x.toNat + 256 * ofLittleEndian b) % 256 = x.toNat := by omega
    have hrest : (x.toNat + 256 * ofLittleEndian b) / 256 = ofLittleEndian b := by omega
    rw [List.length_cons, littleEndian, ofLittleEndian, hdigit, hrest, ih, UInt8.ofNat_toNat]

theorem bigEndian_toNat (b : Bytes) : bigEndian b.length (toNat b) = b := by
  have h := littleEndian_ofLittleEndian b.reverse
  rw [← toNat_reverse, List.reverse_reverse, List.length_reverse] at h
  rw [bigEndian, h, List.reverse_reverse]

end Bytes

namespace Text

def escape (s : String) : String :=
  String.ofList ((Bytes.ofText s).flatMap fun b =>
    ['%', Bytes.hexDigit (b.toNat / 16), Bytes.hexDigit (b.toNat % 16)])

theorem hexValue?_hexDigit {n : Nat} (h : n < 16) : ∃ b, String.utf8EncodeChar (Bytes.hexDigit n) = [b] ∧
    Bytes.hexValue? b = some n := by
  have hall : ∀ n < 16, (String.utf8EncodeChar (Bytes.hexDigit n)).map Bytes.hexValue? = [some n] := by
    decide
  obtain ⟨b, hb, hn⟩ := List.map_eq_singleton_iff.1 (hall n h)
  exact ⟨b, hb, hn⟩

theorem unescape_octet {hi lo : UInt8} {h l : Nat} (hhi : Bytes.hexValue? hi = some h)
    (hlo : Bytes.hexValue? lo = some l) (rest : Bytes) :
    unescape (37 :: hi :: lo :: rest) = UInt8.ofNat (16 * h + l) :: unescape rest := by
  rw [unescape.eq_def]
  simp only [hhi, hlo]

theorem unescapeText?_escape (s : String) : unescapeText? (escape s) = some s := by
  have hpercent : String.utf8EncodeChar '%' = [37] := by decide
  have hbytes : ∀ bs : Bytes, unescape (bs.flatMap fun b => ['%', Bytes.hexDigit (b.toNat / 16),
      Bytes.hexDigit (b.toNat % 16)].flatMap String.utf8EncodeChar) = bs := by
    intro bs
    induction bs with
    | nil => rfl
    | cons b bs ih =>
      have hb : b.toNat < 256 := b.toNat_lt
      obtain ⟨hi, hhi, hhi'⟩ := hexValue?_hexDigit (n := b.toNat / 16) (by omega)
      obtain ⟨lo, hlo, hlo'⟩ := hexValue?_hexDigit (n := b.toNat % 16) (by omega)
      have hsame : 16 * (b.toNat / 16) + b.toNat % 16 = b.toNat := Nat.div_add_mod _ _
      rw [List.flatMap_cons]
      simp only [List.flatMap_cons, List.flatMap_nil, hpercent, hhi, hlo, List.append_nil,
        List.cons_append, List.nil_append] at ih ⊢
      rw [unescape_octet hhi' hlo', hsame, ih]
      simp
  rw [unescapeText?, escape, Bytes.ofText_ofList, List.flatMap_assoc, hbytes, Bytes.toText?_ofText]

theorem slash_not_mem_escape (s : String) : '/' ∉ (escape s).toList := by
  have hall : ∀ n < 16, Bytes.hexDigit n ≠ '/' := by decide
  rw [escape, String.toList_ofList, List.mem_flatMap]
  rintro ⟨b, -, hb⟩
  have hlt : b.toNat < 256 := b.toNat_lt
  simp only [List.mem_cons, List.not_mem_nil, or_false] at hb
  rcases hb with hb | hb | hb
  · simp at hb
  · exact hall _ (by omega) hb.symm
  · exact hall _ (by omega) hb.symm

theorem escape_eq_empty_iff {s : String} : escape s = "" ↔ s = "" := by
  constructor
  · intro h
    have hs := unescapeText?_escape s
    rw [h] at hs
    have hempty : unescapeText? "" = some "" := by decide +kernel
    exact (Option.some.inj (hempty.symm.trans hs)).symm
  · rintro rfl
    decide +kernel

end Text
end Telemetry
