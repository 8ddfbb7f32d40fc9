import Telemetry.Gzip.Member

/-!
A gzip file that has been written is read back as its data. The blocks of a written file hold plain bytes
and each of them starts at a byte, so reading goes from one to the next without bits left over; the last
one leaves the checksum and the length.
-/
namespace Telemetry

namespace Bytes

/-- What does not fit is lost from the top. -/
theorem ofLittleEndian_littleEndian_mod (n v : Nat) :
    ofLittleEndian (littleEndian n v) = v % 256 ^ n := by
  induction n generalizing v with
  | zero => rw [littleEndian, ofLittleEndian, Nat.pow_zero, Nat.mod_one]
  | succ n ih =>
    have hbyte : (UInt8.ofNat (v % 256)).toNat = v % 256 := by
      rw [UInt8.toNat_ofNat']
      omega
    rw [littleEndian, ofLittleEndian, ih, hbyte, Nat.pow_succ, Nat.mul_comm (256 ^ n), Nat.mod_mul]

theorem littleEndian_two (v : Nat) :
    littleEndian 2 v = [UInt8.ofNat (v % 256), UInt8.ofNat (v / 256 % 256)] := rfl

end Bytes

namespace Gzip

section Block
variable {out : Array UInt8} {part tail : Bytes}

theorem take?_type {b : UInt8} (hb : b = 0 ∨ b = 1) (hpart : tail ≠ []) :
    Bits.take? 3 ⟨0, 0, b :: tail⟩ = some (b.toNat, ⟨0, 5, tail⟩) := by
  cases tail with
  | nil => exact absurd rfl hpart
  | cons c tail => rcases hb with rfl | rfl <;> simp [Bits.take?, Bits.fill]

theorem toBytes_of_count_lt {buffer count : Nat} (h : count < 8) (rest : Bytes) :
    Bits.toBytes ⟨buffer, count, rest⟩ = rest := by
  simp [Bits.toBytes, Nat.div_eq_of_lt h]

def storedText (part : Bytes) : Bytes :=
  Bytes.littleEndian 2 part.length ++ Bytes.littleEndian 2 (65535 - part.length) ++ part

theorem storedText_append_ne_nil (part tail : Bytes) : storedText part ++ tail ≠ [] := by
  rw [storedText, Bytes.littleEndian_two]
  exact List.cons_ne_nil _ _

theorem stored_storedText (hpart : part.length ≤ 65535) {count : Nat} (hcount : count < 8)
    (out : Array UInt8) (buffer : Nat) (tail : Bytes) :
    stored out ⟨buffer, count, storedText part ++ tail⟩ =
      ⟨out ++ part.toArray, some ⟨0, 0, tail⟩⟩ := by
  have htwo : ∀ v ≤ 65535,
      (UInt8.ofNat (v % 256)).toNat + 256 * (UInt8.ofNat (v / 256 % 256)).toNat = v := by
    intro v hv
    simp only [UInt8.toNat_ofNat']
    omega
  have hlength := htwo part.length hpart
  have hcomplement := htwo (65535 - part.length) (by omega)
  have hsum : part.length + (65535 - part.length) = 65535 := by omega
  simp only [stored, toBytes_of_count_lt hcount, storedText, Bytes.littleEndian_two, List.cons_append,
    List.nil_append, hlength, hcomplement, hsum]
  simp

/-- A block of plain bytes is read up to the byte behind it, and only the last block ends the data. -/
theorem blocks_storedText (hpart : part.length ≤ 65535) {b : UInt8} (hb : b = 0 ∨ b = 1)
    (symbolFuel fuel : Nat) (out : Array UInt8) (tail : Bytes) :
    blocks symbolFuel (fuel + 1) out ⟨0, 0, b :: storedText part ++ tail⟩ =
      if b = 1 then ⟨out ++ part.toArray, some ⟨0, 0, tail⟩⟩
      else blocks symbolFuel fuel (out ++ part.toArray) ⟨0, 0, tail⟩ := by
  have hne : storedText part ++ tail ≠ [] := storedText_append_ne_nil part tail
  have hkind : b.toNat / 2 = 0 := by rcases hb with rfl | rfl <;> rfl
  have hblock : block symbolFuel 0 out ⟨0, 5, storedText part ++ tail⟩ =
      ⟨out ++ part.toArray, some ⟨0, 0, tail⟩⟩ := stored_storedText hpart (by decide) out 0 tail
  rw [List.cons_append, blocks, take?_type hb hne]
  simp only [hkind, hblock]
  rcases hb with rfl | rfl <;> rfl

end Block

theorem blocks_storedBlocks {n fuel : Nat} {bs : Bytes} (hn : bs.length ≤ 65535 * (n + 1))
    (hfuel : n < fuel) (symbolFuel : Nat) (out : Array UInt8) (tail : Bytes) :
    blocks symbolFuel fuel out ⟨0, 0, storedBlocks (n + 1) bs ++ tail⟩ =
      ⟨out ++ bs.toArray, some ⟨0, 0, tail⟩⟩ := by
  induction n generalizing bs fuel out with
  | zero =>
    obtain ⟨fuel, rfl⟩ : ∃ k, fuel = k + 1 := ⟨fuel - 1, by omega⟩
    have hdrop : bs.drop 65535 = [] := List.drop_eq_nil_iff.2 (by omega)
    have htake : bs.take 65535 = bs := List.take_of_length_le (by omega)
    have hblock := blocks_storedText (by omega : bs.length ≤ 65535) (.inr rfl) symbolFuel fuel out tail
    simpa [storedBlocks, hdrop, htake, storedText] using hblock
  | succ n ih =>
    obtain ⟨fuel, rfl⟩ : ∃ k, fuel = k + 1 := ⟨fuel - 1, by omega⟩
    have htake : (bs.take 65535).length ≤ 65535 := List.length_take_le _ _
    by_cases hdrop : bs.drop 65535 = []
    · have hblock := blocks_storedText htake (.inr rfl) symbolFuel fuel out tail
      have hall : bs.take 65535 = bs := List.take_of_length_le (List.drop_eq_nil_iff.1 hdrop)
      rw [storedBlocks]
      simpa [hdrop, hall, storedText] using hblock
    · have hblock := blocks_storedText htake (.inl rfl) symbolFuel fuel out
        (storedBlocks (n + 1) (bs.drop 65535) ++ tail)
      have hlen : (bs.drop 65535).length ≤ 65535 * (n + 1) := by
        rw [List.length_drop]
        omega
      have hrest := ih hlen (Nat.lt_of_succ_lt_succ hfuel) (out ++ (bs.take 65535).toArray)
      have hjoin : out ++ (bs.take 65535).toArray ++ (bs.drop 65535).toArray = out ++ bs.toArray := by
        apply Array.ext'
        simp
      rw [hrest, hjoin] at hblock
      rw [storedBlocks]
      simpa [hdrop, storedText] using hblock

theorem lt_length_storedBlocks {n : Nat} {bs : Bytes} (h : 65535 * n ≤ bs.length) :
    n < (storedBlocks (n + 1) bs).length := by
  induction n generalizing bs with
  | zero => rw [storedBlocks]; simp
  | succ n ih =>
    by_cases hdrop : bs.drop 65535 = []
    · have hlen := List.drop_eq_nil_iff.1 hdrop
      obtain rfl : n = 0 := by omega
      rw [storedBlocks]
      simp only [List.length_append, List.length_cons, Bytes.length_littleEndian]
      omega
    · have hlen : 65535 * n ≤ (bs.drop 65535).length := by
        rw [List.length_drop]
        omega
      have hrest := ih hlen
      rw [storedBlocks]
      simp only [List.isEmpty_iff, hdrop, if_false, List.length_append, List.length_cons,
        Bytes.length_littleEndian]
      omega

theorem inflate_storedBlocks (bs tail : Bytes) :
    inflate (storedBlocks (bs.length / 65535 + 1) bs ++ tail) =
      ⟨bs.toArray, some ⟨0, 0, tail⟩⟩ := by
  have hblocks : bs.length / 65535 <
      8 * (storedBlocks (bs.length / 65535 + 1) bs ++ tail).length + 1 := by
    have hle : 65535 * (bs.length / 65535) ≤ bs.length := by omega
    have hlt := lt_length_storedBlocks hle
    rw [List.length_append]
    omega
  have hread := blocks_storedBlocks (by omega : bs.length ≤ 65535 * (bs.length / 65535 + 1)) hblocks
    (8 * (storedBlocks (bs.length / 65535 + 1) bs ++ tail).length + 1) #[] tail
  rw [Array.empty_append] at hread
  exact hread

theorem trailerMatches_trailer (bs : Bytes) : trailerMatches bs.toArray
    (Bytes.littleEndian 4 (checksum bs.toArray).toNat ++ Bytes.littleEndian 4 bs.length) = true := by
  have hchecksum : (checksum bs.toArray).toNat % 256 ^ 4 = (checksum bs.toArray).toNat :=
    Nat.mod_eq_of_lt (UInt32.toNat_lt _)
  have htake : ∀ xs ys : Bytes, xs.length = 4 → (xs ++ ys).take 4 = xs ∧ (xs ++ ys).drop 4 = ys :=
    fun xs ys h => ⟨List.take_left' h, List.drop_left' h⟩
  obtain ⟨hfirst, hsecond⟩ := htake _ (Bytes.littleEndian 4 bs.length)
    (Bytes.length_littleEndian 4 (checksum bs.toArray).toNat)
  have hall : (Bytes.littleEndian 4 bs.length).take 4 = Bytes.littleEndian 4 bs.length :=
    List.take_of_length_le (by simp)
  simp only [trailerMatches, hfirst, hsecond, hall, Bytes.ofLittleEndian_littleEndian_mod, hchecksum]
  simp

theorem read_write (bs : Bytes) : read (write bs) = ⟨bs, true⟩ := by
  have hheader : ∀ rest, dropHeader? ([0x1f, 0x8b, 8, 0, 0, 0, 0, 0, 0, 255] ++ rest) = some rest := by
    intro rest
    simp [dropHeader?, dropBytes?]
  have hwrite : write bs = [0x1f, 0x8b, 8, 0, 0, 0, 0, 0, 0, 255] ++
      (storedBlocks (bs.length / 65535 + 1) bs ++
        (Bytes.littleEndian 4 (checksum bs.toArray).toNat ++ Bytes.littleEndian 4 bs.length)) := by
    simp only [write, List.append_assoc]
  rw [hwrite, read, if_neg (by simp), hheader]
  simp only [inflate_storedBlocks]
  rw [toBytes_of_count_lt (by decide), trailerMatches_trailer]

end Gzip
end Telemetry
