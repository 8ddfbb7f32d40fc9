import Telemetry.Proofs.Crypto.KeySizes
import Telemetry.Proofs.Traversal

/-!
Encryption in blocks. Chunks put together are the text that they were cut from, and blocks of the size
of the key are found again in the ciphertext; so a text comes back if each of its chunks does.
-/
namespace Telemetry.Oaep

section Chunks
variable {size : Nat} {block rest : Bytes}

@[simp] theorem chunks_nil (hsize : 0 < size) : chunks size [] = [] := by
  have hcount : (0 + size - 1) / size = 0 := Nat.div_eq_of_lt (by omega)
  rw [chunks, List.length_nil, hcount]
  rfl

theorem chunks_append (hsize : 0 < size) (hblock : block.length = size) (rest : Bytes) :
    chunks size (block ++ rest) = block :: chunks size rest := by
  have hcount : ((block ++ rest).length + size - 1) / size = (rest.length + size - 1) / size + 1 := by
    have hsum : (block ++ rest).length + size - 1 = (rest.length + size - 1) + size := by
      rw [List.length_append]
      omega
    rw [hsum, Nat.add_div_right _ hsize]
  rw [chunks, hcount, List.range_succ_eq_map, List.map_cons, List.map_map]
  congr 1
  · simp [← hblock]
  · rw [chunks]
    refine List.map_congr_left fun i _ => ?_
    have hdrop : (block ++ rest).drop ((i + 1) * size) = rest.drop (i * size) := by
      rw [Nat.succ_mul, Nat.add_comm, ← hblock, ← List.drop_drop, List.drop_left]
    simp only [Function.comp_apply, Nat.succ_eq_add_one, hdrop]

theorem chunks_of_length_le (hne : rest ≠ []) (hsize : rest.length ≤ size) :
    chunks size rest = [rest] := by
  have hpos : 0 < rest.length := List.length_pos_iff.2 hne
  have hcount : (rest.length + size - 1) / size = 1 := by
    have hsum : rest.length + size - 1 = (rest.length - 1) + size := by omega
    rw [hsum, Nat.add_div_right _ (by omega), Nat.div_eq_of_lt (by omega)]
  rw [chunks, hcount]
  simp [List.take_of_length_le hsize]

theorem flatten_chunks (hsize : 0 < size) (bs : Bytes) : (chunks size bs).flatten = bs := by
  induction hlen : bs.length using Nat.strongRecOn generalizing bs with
  | _ n ih =>
    by_cases hne : bs = []
    · rw [hne, chunks_nil hsize]
      rfl
    by_cases hshort : bs.length ≤ size
    · simp [chunks_of_length_le hne hshort]
    · have htake : (bs.take size).length = size := List.length_take_of_le (by omega)
      have hrest := ih (bs.drop size).length (by rw [List.length_drop]; omega) (bs.drop size) rfl
      have hcons := chunks_append hsize htake (bs.drop size)
      rw [List.take_append_drop] at hcons
      rw [hcons, List.flatten_cons, hrest, List.take_append_drop]

theorem chunks_flatten (hsize : 0 < size) {blocks : List Bytes}
    (h : ∀ block ∈ blocks, block.length = size) : chunks size blocks.flatten = blocks := by
  induction blocks with
  | nil => exact chunks_nil hsize
  | cons block blocks ih =>
    obtain ⟨hblock, hrest⟩ := List.forall_mem_cons.1 h
    rw [List.flatten_cons, chunks_append hsize hblock, ih hrest]

theorem length_flatten_of_forall {blocks : List Bytes} (h : ∀ block ∈ blocks, block.length = size) :
    blocks.flatten.length = blocks.length * size := by
  induction blocks with
  | nil => simp
  | cons block blocks ih =>
    obtain ⟨hblock, hrest⟩ := List.forall_mem_cons.1 h
    rw [List.flatten_cons, List.length_append, hblock, ih hrest, List.length_cons, Nat.succ_mul,
      Nat.add_comm]

end Chunks

/-- Every chunk of a text comes back when its block is decrypted. -/
def Recovers (k : Rsa.PrivateKey) (size : Nat) (seeds : Nat → Bytes) (plain : Bytes) : Prop :=
  ∀ c ∈ (chunks size plain).zipIdx,
    decryptBlock? k (encryptBlock k.publicKey (seeds c.2) c.1) = some c.1

instance (k : Rsa.PrivateKey) (size : Nat) (seeds : Nat → Bytes) (plain : Bytes) :
    Decidable (Recovers k size seeds plain) := by
  unfold Recovers
  infer_instance

theorem decrypt_encrypt {k : Rsa.PrivateKey} {size : Nat} {seeds : Nat → Bytes} {plain : Bytes}
    (hsize : 0 < size) (hkey : 0 < k.size) (h : Recovers k size seeds plain) :
    decrypt k (encrypt k.publicKey size seeds plain) = .ok plain := by
  have hblocks : ∀ block ∈ (chunks size plain).zipIdx.map fun c =>
      encryptBlock k.publicKey (seeds c.2) c.1, block.length = k.size := by
    intro block hblock
    obtain ⟨c, -, rfl⟩ := List.mem_map.1 hblock
    simp [encryptBlock, Rsa.PrivateKey.size]
  have hlength := length_flatten_of_forall hblocks
  have hcut := chunks_flatten hkey hblocks
  have hparts : ((chunks size plain).zipIdx.map fun c =>
      encryptBlock k.publicKey (seeds c.2) c.1).mapM (decryptBlock? k) =
        some ((chunks size plain).zipIdx.map Prod.fst) := mapM_map_of_forall h
  have hfst : (chunks size plain).zipIdx.map Prod.fst = chunks size plain := by simp
  rw [decrypt, decryptWith, encrypt, if_neg (by rw [hlength]; simp)]
  rw [hcut, hparts, hfst]
  simp only [flatten_chunks hsize]

end Telemetry.Oaep
