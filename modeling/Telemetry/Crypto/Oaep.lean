import Telemetry.Crypto.Rsa
import Telemetry.Crypto.Sha256

/-!
Encryption of byte strings in blocks: each chunk is masked with a seed (optimal asymmetric encryption
padding with SHA-256 and a fixed label) and raised to the key's exponent. The seeds are given, so
that encryption is a function; decryption does not need them.
-/
namespace Telemetry.Oaep

def label : Bytes := Bytes.ofText "telemon"

def digestSize : Nat := 32

/-- What a block has besides its chunk: two digests, a zero and a mark. -/
def overhead : Nat := 2 * digestSize + 2

/-- The longest chunk of a key's blocks; there is none if the block does not even hold the rest. -/
def chunkSize? (k : Rsa.PublicKey) : Option Nat :=
  if overhead ≤ k.size then some (k.size - overhead) else none

inductive Error where
  /-- The length is no multiple of the block's. -/
  | truncatedBlock (length block : Nat)
  /-- A block is no encrypted chunk. -/
  | decryption
deriving DecidableEq, Repr

def Error.message : Error → String
  | truncatedBlock length block =>
    "ciphertext length " ++ toString length ++ " is not a multiple of the " ++ toString block ++
      "-byte block size"
  | decryption => "RSA error: decryption error"

/-- Digests of the seed and a counter, one after another, as many as asked for. -/
def maskBlocks (seed : Bytes) (counter : Nat) : Nat → Bytes
  | 0 => []
  | n + 1 => Sha256.digest (seed ++ Bytes.bigEndian 4 counter) ++ maskBlocks seed (counter + 1) n

def mask (seed : Bytes) (length : Nat) : Bytes :=
  (maskBlocks seed 0 ((length + digestSize - 1) / digestSize)).take length

def xor (a b : Bytes) : Bytes := List.zipWith (· ^^^ ·) a b

/-- What a block of `size` bytes masks: the digest of the label, zeros, a mark and the chunk. -/
def paddedData (size : Nat) (chunk : Bytes) : Bytes :=
  Sha256.digest label ++ List.replicate (size - overhead - chunk.length) 0 ++ 1 :: chunk

/-- A chunk as a block of `size` bytes. -/
def pad (size : Nat) (seed chunk : Bytes) : Bytes :=
  let data := paddedData size chunk
  let masked := xor data (mask seed data.length)
  0 :: xor seed (mask masked digestSize) ++ masked

def unpad? (block : Bytes) : Option Bytes :=
  match block with
  | 0 :: rest =>
    if rest.length < 2 * digestSize + 1 then none
    else
      let masked := rest.drop digestSize
      let seed := xor (rest.take digestSize) (mask masked digestSize)
      let data := xor masked (mask seed masked.length)
      if data.take digestSize ≠ Sha256.digest label then none
      else match (data.drop digestSize).dropWhile (· == 0) with
        | 1 :: chunk => some chunk
        | _ => none
  | _ => none

def encryptBlock (k : Rsa.PublicKey) (seed chunk : Bytes) : Bytes :=
  Bytes.bigEndian k.size (k.apply (Bytes.toNat (pad k.size seed chunk)))

/-- The chunk of one block. A block is a number below the modulus, and the answer has to give it back
under the public exponent. -/
def decryptBlock? (k : Rsa.PrivateKey) (block : Bytes) : Option Bytes :=
  let c := Bytes.toNat block
  if k.publicKey.modulus ≤ c then none
  else
    let m := k.apply c
    if k.publicKey.apply m ≠ c then none else unpad? (Bytes.bigEndian k.size m)

/-- Cuts a byte string into chunks of `size`, the last of which may be shorter. -/
def chunks (size : Nat) (bs : Bytes) : List Bytes :=
  (List.range ((bs.length + size - 1) / size)).map fun i => (bs.drop (i * size)).take size

def encrypt (k : Rsa.PublicKey) (size : Nat) (seeds : Nat → Bytes) (plain : Bytes) : Bytes :=
  ((chunks size plain).zipIdx.map fun (chunk, i) => encryptBlock k (seeds i) chunk).flatten

/-- The ciphertext of a text for the owner of a key. There is none, not even of the empty text, if the blocks
of the key have no room for a chunk of one byte. -/
def encryptFor? (k : Rsa.PublicKey) (seeds : Nat → Bytes) (plain : Bytes) : Option Bytes :=
  match chunkSize? k with
  | none => none
  | some 0 => none
  | some size => some (encrypt k size seeds plain)

/-- Opens the blocks of a ciphertext, each of `size` bytes; its length is looked at first. -/
def decryptWith (open? : Bytes → Option Bytes) (size : Nat) (cipher : Bytes) : Except Error Bytes :=
  if cipher.length % size ≠ 0 then .error (.truncatedBlock cipher.length size)
  else match (chunks size cipher).mapM open? with
    | some parts => .ok parts.flatten
    | none => .error .decryption

def decrypt (k : Rsa.PrivateKey) : Bytes → Except Error Bytes := decryptWith (decryptBlock? k) k.size

end Telemetry.Oaep
