import Telemetry.Crypto.KeyFile
import Telemetry.Proofs.Crypto.PemTexts
import Telemetry.Proofs.Store.DiskSteps

/-!
The public keys that files give. They are all keys with an acceptable modulus of at most 4096 bits, however short
it is, in both written forms; so a key is loaded without regard to whether its blocks have room for a chunk, and
texts can be encrypted with those of more than 66 bytes and no others.
-/
namespace Telemetry
namespace Rsa

/-- What is looked at when a public key is read. -/
def PublicKey.IsReadable (k : PublicKey) : Prop := k.isAcceptable ∧ bitLength k.modulus ≤ maxPublicBits

instance (k : PublicKey) : Decidable k.IsReadable := by
  unfold PublicKey.IsReadable
  infer_instance

section Forms
variable {k : PublicKey} {pem : Bytes}

def PublicKey.pems (k : PublicKey) : List Bytes :=
  [Pem.write (Bytes.ofText "PUBLIC KEY") k.toNamed, Pem.write (Bytes.ofText "RSA PUBLIC KEY") k.toPlain]

theorem isReadable_of_publicOfPem? (h : publicOfPem? pem = some k) : k.IsReadable := by
  simp only [publicOfPem?, Option.bind_eq_bind, Option.bind_eq_some_iff] at h
  obtain ⟨key, -, hkey⟩ := h
  split at hkey
  · next hreadable =>
    obtain rfl := Option.some.inj hkey
    exact hreadable
  · cases hkey

theorem PublicKey.IsReadable.exponent_le (h : k.IsReadable) : k.exponent ≤ maxExponent := by
  have hacceptable := h.1
  simp only [isAcceptable, Bool.and_eq_true, decide_eq_true_eq] at hacceptable
  exact hacceptable.1.2

theorem PublicKey.IsReadable.publicOfPem?_pems (h : k.IsReadable) : ∀ pem ∈ k.pems, publicOfPem? pem = some k := by
  have hnamed : Pem.decode? (Bytes.ofText "PUBLIC KEY") (Pem.write (Bytes.ofText "PUBLIC KEY") k.toNamed) =
      some k.toNamed := Pem.decode?_write (by decide +kernel) (by simp [toNamed, Der.write])
  have hplain : Pem.decode? (Bytes.ofText "RSA PUBLIC KEY") (Pem.write (Bytes.ofText "RSA PUBLIC KEY") k.toPlain) =
      some k.toPlain := Pem.decode?_write (by decide +kernel) (by simp [toPlain, Der.write])
  -- the first form has to fail on a text of the second, which is tried after it
  have hother : Pem.decode? (Bytes.ofText "PUBLIC KEY") (Pem.write (Bytes.ofText "RSA PUBLIC KEY") k.toPlain) =
      none := by
    have hp : Bytes.ofText "PUBLIC KEY" = 80 :: Bytes.ofText "UBLIC KEY" := by decide +kernel
    have hr : Bytes.ofText "RSA PUBLIC KEY" = 82 :: Bytes.ofText "SA PUBLIC KEY" := by decide +kernel
    rw [Pem.decode?, Pem.write, hp, hr, Pem.body?_frame_of_ne (by decide)]
    rfl
  have hkey : (if k.isAcceptable ∧ bitLength k.modulus ≤ maxPublicBits then some k else none) = some k := if_pos h
  intro pem hpem
  simp only [pems, List.mem_cons, List.not_mem_nil, or_false] at hpem
  rcases hpem with rfl | rfl
  · simp [publicOfPem?, hnamed, namedPublic?_toNamed h.2 h.exponent_le, hkey]
  · simp [publicOfPem?, hother, hplain, plainPublic?_toPlain h.2 h.exponent_le, hkey]

theorem PublicKey.ascii_of_mem_pems : ∀ pem ∈ k.pems, ∀ b ∈ pem, b < 128 := by
  have hlabels : (∀ b ∈ Bytes.ofText "PUBLIC KEY", b < 128) ∧ ∀ b ∈ Bytes.ofText "RSA PUBLIC KEY", b < 128 := by
    decide +kernel
  intro pem hpem
  simp only [pems, List.mem_cons, List.not_mem_nil, or_false] at hpem
  rcases hpem with rfl | rfl
  · exact Pem.ascii_of_mem_write hlabels.1
  · exact Pem.ascii_of_mem_write hlabels.2

end Forms

section Files
variable {d : Disk} {path : String} {k : PublicKey}

theorem readKey_eq_ok_iff {α : Type} {ofPem? : Bytes → Option α} {a : α} : d.readKey ofPem? path = .ok a ↔
    ∃ s, d.readText (.ofText path) = .ok s ∧ ofPem? (Bytes.ofText s) = some a := by
  unfold Disk.readKey
  cases d.readText (.ofText path) with
  | error e => simp
  | ok s => cases hpem : ofPem? (Bytes.ofText s) <;> simp [hpem]

/-- A key of each size up to the largest is readable, so that no size is left out when keys are loaded. -/
theorem exists_isReadable {size : Nat} (hpos : 0 < size) (hsize : size ≤ 512) :
    ∃ k : PublicKey, k.size = size ∧ k.IsReadable := by
  have hmax : maxPublicBits = 4096 := rfl
  have hlarge : 256 ≤ 256 ^ size := Nat.le_self_pow (by omega) 256
  have heven : 256 ^ size % 2 = 0 := by
    obtain ⟨n, rfl⟩ : ∃ n, size = n + 1 := ⟨size - 1, by omega⟩
    rw [Nat.pow_succ]
    omega
  have hbits : bitLength (256 ^ size - 1) ≤ 8 * size := by
    refine bitLength_le ?_
    rw [two_pow_eight_mul]
    omega
  have hfills : size ≤ octets (256 ^ size - 1) := by
    refine Nat.le_of_not_lt fun hlt => ?_
    have hpow : 256 ^ octets (256 ^ size - 1) * 256 ≤ 256 ^ size := by
      rw [← Nat.pow_succ]
      exact Nat.pow_le_pow_right (by decide) hlt
    have hbound := lt_pow_octets (256 ^ size - 1)
    omega
  refine ⟨⟨256 ^ size - 1, 3⟩, ?_, ?_, ?_⟩
  · have hholds : octets (256 ^ size - 1) ≤ size := by
      rw [octets]
      omega
    exact Nat.le_antisymm hholds hfills
  · have hodd : (256 ^ size - 1) % 2 = 1 := by omega
    have hbelow : 3 < 256 ^ size - 1 := by omega
    simp [PublicKey.isAcceptable, hodd, hbelow, PublicKey.maxExponent]
  · exact Nat.le_trans hbits (by omega)

theorem PublicKey.IsReadable.readKey_eq_ok (h : k.IsReadable) {pem : Bytes} (hpem : pem ∈ k.pems)
    (hfile : d.read (.ofText path) = .ok pem) : d.readKey publicOfPem? path = .ok k := by
  obtain ⟨s, rfl⟩ := Bytes.exists_ofText_of_ascii (PublicKey.ascii_of_mem_pems pem hpem)
  have htext : d.readText (.ofText path) = .ok s := by
    rw [Disk.readText_of_read_ok hfile, Bytes.toText?_ofText]
  exact readKey_eq_ok_iff.2 ⟨s, htext, h.publicOfPem?_pems _ hpem⟩

def keyDisk (pem : Bytes) : Disk := ⟨[(["key.pem"], some (.file pem))]⟩

theorem read_keyDisk (pem : Bytes) : (keyDisk pem).read (.ofText "key.pem") = .ok pem := rfl

theorem exists_readKey_iff (k : PublicKey) :
    (∃ (d : Disk) (path : String), d.readKey publicOfPem? path = .ok k) ↔ k.IsReadable := by
  constructor
  · rintro ⟨d, path, h⟩
    obtain ⟨s, -, hpem⟩ := readKey_eq_ok_iff.1 h
    exact isReadable_of_publicOfPem? hpem
  · intro h
    exact ⟨keyDisk _, "key.pem", h.readKey_eq_ok List.mem_cons_self (read_keyDisk _)⟩

end Files

/-- Which keys are loaded, from either text, and what can be encrypted with them. The size has no part in the
first, but a key has a chunk size only from 66 bytes on, one above zero only if it is longer, and then alone is
there a ciphertext, whatever the text. -/
theorem loads_and_encrypts (k : PublicKey) :
    ((∃ (d : Disk) (path : String), d.readKey publicOfPem? path = .ok k) ↔ k.IsReadable) ∧
      (k.IsReadable → ∀ pem ∈ k.pems, ∀ (d : Disk) (path : String), d.read (.ofText path) = .ok pem →
        d.readKey publicOfPem? path = .ok k) ∧
      (Oaep.chunkSize? k = none ↔ k.size < Oaep.overhead) ∧
      (∀ size, Oaep.chunkSize? k = some size ↔ k.size = Oaep.overhead + size) ∧
      ((∃ size, 0 < size ∧ Oaep.chunkSize? k = some size) ↔ Oaep.overhead < k.size) ∧
      ∀ seeds plain, (Oaep.encryptFor? k seeds plain).isSome ↔ Oaep.overhead < k.size :=
  ⟨exists_readKey_iff k, fun h _ hpem _ _ => h.readKey_eq_ok hpem, Oaep.chunkSize?_eq_none_iff,
    fun _ => Oaep.chunkSize?_eq_some_iff, Oaep.exists_chunkSize_iff, fun _ _ => Oaep.encryptFor?_isSome_iff⟩

/-- A key of 67 bytes is the shortest with a chunk. -/
theorem loads_and_encrypts_chunkOfOne : ∃ k : PublicKey, k = ⟨2 ^ 535 + 1, 65537⟩ ∧
    (keyDisk (Pem.write (Bytes.ofText "PUBLIC KEY") k.toNamed)).readKey publicOfPem? "key.pem" = .ok k ∧
    Oaep.chunkSize? k = some 1 ∧ (Oaep.encryptFor? k (fun _ => List.replicate 32 7) [1, 2, 3]).isSome := by
  refine ⟨_, rfl, ?_⟩
  obtain ⟨-, hload, -, hchunk, -, hencrypt⟩ := loads_and_encrypts ⟨2 ^ 535 + 1, 65537⟩
  refine ⟨hload (by decide +kernel) _ List.mem_cons_self _ _ (read_keyDisk _), ?_, ?_⟩
  · exact (hchunk 1).2 (by decide +kernel)
  · exact (hencrypt _ _).2 (by decide +kernel)

/-- The text of a key of 66 bytes. -/
def narrowPem : String :=
  "-----BEGIN RSA PUBLIC KEY-----\n" ++
    "MEoCQwCAAAAAAAAAAAAAAAAAAAAAAAAAAAAAAAAAAAAAAAAAAAAAAAAAAAAAAAAA\n" ++
    "AAAAAAAAAAAAAAAAAAAAAAAAAAAAMDkCAwEAAQ==\n" ++
    "-----END RSA PUBLIC KEY-----\n"

/-- With a key of 66 bytes, which is loaded, chunks have no length; with one of 65 bytes, which is loaded as well,
there is no such length. -/
theorem narrow_keys_are_loaded :
    ((keyDisk (Bytes.ofText narrowPem)).readKey publicOfPem? "key.pem" = .ok ⟨2 ^ 527 + 12345, 65537⟩ ∧
      Oaep.chunkSize? ⟨2 ^ 527 + 12345, 65537⟩ = some 0 ∧
      Oaep.encryptFor? ⟨2 ^ 527 + 12345, 65537⟩ (fun _ => List.replicate 32 7) [1] = none) ∧
    (∃ (d : Disk) (path : String), d.readKey publicOfPem? path = .ok ⟨2 ^ 519 + 1, 65537⟩) ∧
      Oaep.chunkSize? ⟨2 ^ 519 + 1, 65537⟩ = none := by
  refine ⟨⟨?_, by decide +kernel, by decide +kernel⟩, (exists_readKey_iff _).2 (by decide +kernel), by decide +kernel⟩
  refine readKey_eq_ok_iff.2 ⟨narrowPem, ?_, by decide +kernel⟩
  rw [Disk.readText_of_read_ok (read_keyDisk _), Bytes.toText?_ofText]

end Rsa
end Telemetry
