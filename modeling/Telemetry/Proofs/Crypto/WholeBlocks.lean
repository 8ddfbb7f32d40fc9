import Telemetry.Proofs.Crypto.Blocks
import Telemetry.Proofs.Crypto.KeyPairs

/-!
Ciphertexts as rows of whole blocks. Encryption cuts a text at one size and decryption a ciphertext at another;
they line up because every block has the size of the key. What is no row of whole blocks is refused before a
block is opened, and rows that are put together are opened part by part.
-/
namespace Telemetry.Oaep

section Cuts
variable {size : Nat} {bs chunk front back : Bytes}

theorem length_chunks (size : Nat) (bs : Bytes) :
    (chunks size bs).length = (bs.length + size - 1) / size := by simp [chunks]

theorem length_le_of_mem_chunks (h : chunk ∈ chunks size bs) : chunk.length ≤ size := by
  obtain ⟨i, -, rfl⟩ := List.mem_map.1 h
  rw [List.length_take]
  exact Nat.min_le_left _ _

/-- What is cut behind whole blocks is cut as if it stood alone. -/
theorem chunks_append_of_dvd (hsize : 0 < size) (h : size ∣ front.length) (back : Bytes) :
    chunks size (front ++ back) = chunks size front ++ chunks size back := by
  obtain ⟨n, hn⟩ := h
  induction n generalizing front with
  | zero =>
    obtain rfl : front = [] := List.eq_nil_of_length_eq_zero hn
    rw [chunks_nil hsize]
    rfl
  | succ n ih =>
    rw [Nat.mul_succ] at hn
    have hblock : (front.take size).length = size := List.length_take_of_le (by omega)
    have hrest : (front.drop size).length = size * n := by
      rw [List.length_drop]
      omega
    have hfront : chunks size front = front.take size :: chunks size (front.drop size) := by
      rw [← chunks_append hsize hblock, List.take_append_drop]
    calc chunks size (front ++ back)
        = chunks size (front.take size ++ (front.drop size ++ back)) := by
          rw [← List.append_assoc, List.take_append_drop]
      _ = front.take size :: (chunks size (front.drop size) ++ chunks size back) := by
          rw [chunks_append hsize hblock, ih hrest]
      _ = chunks size front ++ chunks size back := by rw [hfront, List.cons_append]

end Cuts

section Whole
variable {open? : Bytes → Option Bytes} {size : Nat} {cipher plain front back : Bytes}

theorem decryptWith_of_not_dvd (h : ¬ size ∣ cipher.length) :
    decryptWith open? size cipher = .error (.truncatedBlock cipher.length size) :=
  if_pos fun hmod => h (Nat.dvd_of_mod_eq_zero hmod)

theorem decryptWith_of_dvd (h : size ∣ cipher.length) : decryptWith open? size cipher =
    match (chunks size cipher).mapM open? with
    | some parts => .ok parts.flatten
    | none => .error .decryption :=
  if_neg (not_not_intro (Nat.mod_eq_zero_of_dvd h))

theorem decryptWith_eq_truncated_iff :
    decryptWith open? size cipher = .error (.truncatedBlock cipher.length size) ↔ ¬ size ∣ cipher.length := by
  refine ⟨fun h hdvd => ?_, decryptWith_of_not_dvd⟩
  rw [decryptWith_of_dvd hdvd] at h
  split at h <;> cases h

theorem decryptWith_eq_ok_iff (h : size ∣ cipher.length) : decryptWith open? size cipher = .ok plain ↔
    ∃ parts, (chunks size cipher).mapM open? = some parts ∧ parts.flatten = plain := by
  rw [decryptWith_of_dvd h]
  cases (chunks size cipher).mapM open? <;> simp

theorem decryptWith_eq_error_iff (h : size ∣ cipher.length) :
    (∃ e, decryptWith open? size cipher = .error e) ↔ (chunks size cipher).mapM open? = none := by
  rw [decryptWith_of_dvd h]
  cases (chunks size cipher).mapM open? <;> simp

theorem dvd_length_append (hfront : size ∣ front.length) (hback : size ∣ back.length) :
    size ∣ (front ++ back).length := by
  rw [List.length_append]
  exact Nat.dvd_add hfront hback

theorem mapM_chunks_append (hsize : 0 < size) (h : size ∣ front.length) :
    (chunks size (front ++ back)).mapM open? = (chunks size front).mapM open? >>= fun ps =>
      (chunks size back).mapM open? >>= fun qs => some (ps ++ qs) := by
  rw [chunks_append_of_dvd hsize h, List.mapM_append]
  rfl

theorem decryptWith_append_ok {p q : Bytes} (hsize : 0 < size) (hfront : size ∣ front.length)
    (hback : size ∣ back.length) (hp : decryptWith open? size front = .ok p)
    (hq : decryptWith open? size back = .ok q) : decryptWith open? size (front ++ back) = .ok (p ++ q) := by
  obtain ⟨ps, hps, rfl⟩ := (decryptWith_eq_ok_iff hfront).1 hp
  obtain ⟨qs, hqs, rfl⟩ := (decryptWith_eq_ok_iff hback).1 hq
  refine (decryptWith_eq_ok_iff (dvd_length_append hfront hback)).2 ⟨ps ++ qs, ?_, List.flatten_append⟩
  rw [mapM_chunks_append hsize hfront, hps, hqs]
  rfl

theorem decryptWith_append_error_iff (hsize : 0 < size) (hfront : size ∣ front.length)
    (hback : size ∣ back.length) : (∃ e, decryptWith open? size (front ++ back) = .error e) ↔
      (∃ e, decryptWith open? size front = .error e) ∨ ∃ e, decryptWith open? size back = .error e := by
  rw [decryptWith_eq_error_iff (dvd_length_append hfront hback), decryptWith_eq_error_iff hfront,
    decryptWith_eq_error_iff hback, mapM_chunks_append hsize hfront]
  cases (chunks size front).mapM open? with
  | none => simp
  | some ps => cases (chunks size back).mapM open? <;> simp

end Whole

section Keys
variable {k : Rsa.PrivateKey} {seeds : Nat → Bytes}

theorem length_encrypt (k : Rsa.PublicKey) (size : Nat) (seeds : Nat → Bytes) (plain : Bytes) :
    (encrypt k size seeds plain).length = (plain.length + size - 1) / size * k.size := by
  have hblocks : ∀ block ∈ (chunks size plain).zipIdx.map fun c => encryptBlock k (seeds c.2) c.1,
      block.length = k.size := by
    intro block hblock
    obtain ⟨c, -, rfl⟩ := List.mem_map.1 hblock
    exact Bytes.length_bigEndian _ _
  rw [encrypt, length_flatten_of_forall hblocks, List.length_map, List.length_zipIdx, length_chunks]

theorem Inverts.recovers (h : Inverts k) (hseeds : ∀ i, (seeds i).length = digestSize) (plain : Bytes) :
    Recovers k (k.size - overhead) seeds plain := by
  intro c hc
  have hchunk : c.1 ∈ chunks (k.size - overhead) plain := List.fst_mem_of_mem_zipIdx hc
  exact h _ _ (hseeds c.2) (length_le_of_mem_chunks hchunk)

/-- A text of any length comes back from as many blocks as it needs. -/
theorem exists_encryptFor? (hsize : overhead < k.size) (h : Inverts k)
    (hseeds : ∀ i, (seeds i).length = digestSize) (plain : Bytes) :
    ∃ cipher, encryptFor? k.publicKey seeds plain = some cipher ∧
      cipher.length = (plain.length + (k.size - overhead) - 1) / (k.size - overhead) * k.size ∧
      decrypt k cipher = .ok plain := by
  have hchunk : chunkSize? k.publicKey = some (k.size - overhead) := if_pos (Nat.le_of_lt hsize)
  have hpos : 0 < k.size - overhead := Nat.sub_pos_of_lt hsize
  refine ⟨_, encryptFor?_of_chunkSize? hchunk hpos seeds plain, length_encrypt _ _ _ _, ?_⟩
  exact decrypt_encrypt hpos (Nat.zero_lt_of_lt hsize) (h.recovers hseeds plain)

/-- Encryption in blocks and its inverse. The blocks of a key hold a chunk of `k.size - overhead` bytes; if each
block gives back its chunk, every text comes back from its ciphertext, which has a block of `k.size` bytes for
each chunk. A ciphertext that is not made of whole blocks is refused by its length, however blocks are opened;
others are opened part by part. -/
theorem decrypt_exact (k : Rsa.PrivateKey) (hsize : overhead < k.size) :
    (Inverts k → ∀ seeds plain, (∀ i, (seeds i).length = digestSize) →
      ∃ cipher, encryptFor? k.publicKey seeds plain = some cipher ∧
        cipher.length = (plain.length + (k.size - overhead) - 1) / (k.size - overhead) * k.size ∧
        decrypt k cipher = .ok plain) ∧
    (∀ cipher, decrypt k cipher = .error (.truncatedBlock cipher.length k.size) ↔
      ¬ k.size ∣ cipher.length) ∧
    (∀ cipher, ¬ k.size ∣ cipher.length → ∀ open?, decryptWith open? k.size cipher = decrypt k cipher) ∧
    ∀ front back, k.size ∣ front.length → k.size ∣ back.length →
      (∀ p q, decrypt k front = .ok p → decrypt k back = .ok q → decrypt k (front ++ back) = .ok (p ++ q)) ∧
      ((∃ e, decrypt k (front ++ back) = .error e) ↔
        (∃ e, decrypt k front = .error e) ∨ ∃ e, decrypt k back = .error e) := by
  have hpos : 0 < k.size := Nat.zero_lt_of_lt hsize
  refine ⟨fun h seeds plain hseeds => exists_encryptFor? hsize h hseeds plain,
    fun cipher => decryptWith_eq_truncated_iff, fun cipher h open? => ?_, fun front back hfront hback => ?_⟩
  · rw [decrypt, decryptWith_of_not_dvd h, decryptWith_of_not_dvd h]
  · exact ⟨fun p q => decryptWith_append_ok hpos hfront hback, decryptWith_append_error_iff hpos hfront hback⟩

def shortKey : Rsa.PrivateKey where
  publicKey := ⟨(3 * 2 ^ 276 + 1) * (7 * 2 ^ 290 + 1), 65537⟩
  secret := 2486608593614363276439938913922560388291772179347209811888871901433664595862718565515265
  first := 3 * 2 ^ 276 + 1
  second := 7 * 2 ^ 290 + 1

theorem isPair_shortKey : shortKey.IsPair where
  consistent := by decide +kernel
  first := Rsa.prime_of_generator (c := 3) (n := 276) (a := 19) Nat.prime_three (by decide +kernel)
    (by decide +kernel) (by decide +kernel) (by decide +kernel)
  second := Rsa.prime_of_generator (c := 7) (n := 290) (a := 3) (by decide) (by decide +kernel)
    (by decide +kernel) (by decide +kernel) (by decide +kernel)
  different := by decide +kernel

/-- Seven bytes make two blocks. -/
theorem decrypt_exact_shortKey : overhead < shortKey.size ∧
    ∃ cipher, encryptFor? shortKey.publicKey (fun _ => List.replicate 32 7) [1, 2, 3, 4, 5, 6, 7] = some cipher ∧
      cipher.length = 144 ∧ decrypt shortKey cipher = .ok [1, 2, 3, 4, 5, 6, 7] ∧
      decrypt shortKey (cipher ++ cipher) = .ok [1, 2, 3, 4, 5, 6, 7, 1, 2, 3, 4, 5, 6, 7] ∧
      decrypt shortKey (0 :: cipher) = .error (.truncatedBlock 145 72) := by
  have hsize : shortKey.size = 72 := by decide +kernel
  have hlonger : overhead < shortKey.size := by decide +kernel
  obtain ⟨hround, htruncated, -, happend⟩ := decrypt_exact shortKey hlonger
  obtain ⟨cipher, hcipher, hlength, hplain⟩ := hround (inverts_of_isPair isPair_shortKey (Nat.le_of_lt hlonger))
    (fun _ => List.replicate 32 7) [1, 2, 3, 4, 5, 6, 7] fun _ => rfl
  have hcount : cipher.length = 144 := by
    rw [hlength, hsize]
    rfl
  have hwhole : shortKey.size ∣ cipher.length := ⟨2, by rw [hcount, hsize]⟩
  refine ⟨hlonger, cipher, hcipher, hcount, hplain, (happend cipher cipher hwhole hwhole).1 _ _ hplain hplain, ?_⟩
  have hlonger' : (0 :: cipher).length = 145 := by rw [List.length_cons, hcount]
  have hrefused := (htruncated (0 :: cipher)).2 (by rw [hlonger', hsize]; decide)
  rwa [hlonger', hsize] at hrefused

end Keys
end Telemetry.Oaep
