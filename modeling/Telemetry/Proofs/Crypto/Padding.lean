import Telemetry.Crypto.Oaep

/-!
The padding of a block. Masking twice is no masking, so the chunk is found again: the digest of the label is
where it was put, and the mark is the first byte behind it that is not zero.
-/
namespace Telemetry.Oaep

section Masks
variable {a b seed : Bytes}

theorem length_xor (a b : Bytes) : (xor a b).length = min a.length b.length := by simp [xor]

theorem xor_xor (h : a.length = b.length) : xor (xor a b) b = a := by
  induction a generalizing b with
  | nil => simp [xor]
  | cons x a ih =>
    cases b with
    | nil => cases h
    | cons y b =>
      have hrest : xor (xor a b) b = a := ih (Nat.succ.inj h)
      simp only [xor, List.zipWith_cons_cons] at hrest ⊢
      rw [hrest, UInt8.xor_assoc, UInt8.xor_self, UInt8.xor_zero]

theorem length_maskBlocks (seed : Bytes) (counter n : Nat) :
    (maskBlocks seed counter n).length = n * digestSize := by
  induction n generalizing counter with
  | zero => simp [maskBlocks]
  | succ n ih => rw [maskBlocks, List.length_append, ih, Sha256.length_digest, Nat.succ_mul, Nat.add_comm]; rfl

@[simp] theorem length_mask (seed : Bytes) (n : Nat) : (mask seed n).length = n := by
  have hdigest : digestSize = 32 := rfl
  rw [mask, List.length_take, length_maskBlocks, hdigest]
  omega

end Masks

section Blocks
variable {size : Nat} {seed chunk : Bytes}

theorem length_paddedData (hsize : overhead ≤ size) (hchunk : chunk.length ≤ size - overhead) :
    (paddedData size chunk).length = size - digestSize - 1 := by
  have hoverhead : overhead = 66 := rfl
  have hdigest : digestSize = 32 := rfl
  simp only [paddedData, List.length_append, List.length_cons, List.length_replicate, Sha256.length_digest]
  omega

theorem exists_pad (hsize : overhead ≤ size) (hchunk : chunk.length ≤ size - overhead)
    (hseed : seed.length = digestSize) : ∃ masked : Bytes, masked.length = size - digestSize - 1 ∧
      pad size seed chunk = 0 :: (xor seed (mask masked digestSize) ++ masked) ∧
      (xor seed (mask masked digestSize)).length = digestSize ∧
      xor (xor seed (mask masked digestSize)) (mask masked digestSize) = seed ∧
      xor masked (mask seed masked.length) = paddedData size chunk := by
  have hdata := length_paddedData hsize hchunk
  have hmasked : (xor (paddedData size chunk) (mask seed (paddedData size chunk).length)).length =
      (paddedData size chunk).length := by rw [length_xor, length_mask, Nat.min_self]
  refine ⟨_, hmasked.trans hdata, rfl, ?_, xor_xor (by rw [length_mask, hseed]), ?_⟩
  · rw [length_xor, length_mask, hseed, Nat.min_self]
  · rw [hmasked]
    exact xor_xor (length_mask _ _).symm

theorem length_pad (hsize : overhead ≤ size) (hchunk : chunk.length ≤ size - overhead)
    (hseed : seed.length = digestSize) : (pad size seed chunk).length = size := by
  obtain ⟨masked, hmasked, hpad, hhead, -, -⟩ := exists_pad hsize hchunk hseed
  have hoverhead : overhead = 66 := rfl
  have hdigest : digestSize = 32 := rfl
  rw [hpad, List.length_cons, List.length_append, hhead, hmasked]
  omega

/-- The mark is the first byte behind the digest that is not zero. -/
theorem dropWhile_paddedData (size : Nat) (chunk : Bytes) :
    ((paddedData size chunk).drop digestSize).dropWhile (· == 0) = 1 :: chunk := by
  have hdigest : (Sha256.digest label).length = digestSize := Sha256.length_digest label
  rw [paddedData, List.append_assoc, ← hdigest, List.drop_left]
  simp

theorem take_paddedData (size : Nat) (chunk : Bytes) :
    (paddedData size chunk).take digestSize = Sha256.digest label := by
  have hdigest : (Sha256.digest label).length = digestSize := Sha256.length_digest label
  rw [paddedData, List.append_assoc, ← hdigest, List.take_left]

theorem unpad?_pad (hsize : overhead ≤ size) (hchunk : chunk.length ≤ size - overhead)
    (hseed : seed.length = digestSize) : unpad? (pad size seed chunk) = some chunk := by
  obtain ⟨masked, hmasked, hpad, hhead, hunmasked, hdata⟩ := exists_pad hsize hchunk hseed
  have hoverhead : overhead = 66 := rfl
  have hdigest : digestSize = 32 := rfl
  have hlength : ¬ (xor seed (mask masked digestSize) ++ masked).length < 2 * digestSize + 1 := by
    rw [List.length_append, hhead, hmasked]
    omega
  have htake : (xor seed (mask masked digestSize) ++ masked).take digestSize =
      xor seed (mask masked digestSize) := List.take_left' hhead
  have hdrop : (xor seed (mask masked digestSize) ++ masked).drop digestSize = masked :=
    List.drop_left' hhead
  rw [hpad, unpad?, if_neg hlength]
  simp only [htake, hdrop, hunmasked, hdata, take_paddedData, dropWhile_paddedData, ne_eq, not_true_eq_false,
    if_false]

end Blocks
end Telemetry.Oaep
