import Telemetry.Gzip.Inflate
import Telemetry.Text.Bytes

/-!
Gzip files: a header, compressed data, and the checksum and the length of the data. The checksum is the
cyclic redundancy check of 32 bits, a byte at a time with a table of the remainders of all bytes. Only the
first member of a file is read, and what follows it does not count; an empty file is empty data. Writing
uses blocks of plain bytes.
-/
namespace Telemetry.Gzip

/-- The generator, lowest power first. -/
def generator : UInt32 := 0xedb88320

def shift : Nat → UInt32 → UInt32
  | 0, c => c
  | n + 1, c => shift n (if c &&& 1 = 1 then (c >>> 1) ^^^ generator else c >>> 1)

def remainders : Array UInt32 := Array.ofFn fun i : Fin 256 => shift 8 i.val.toUInt32

/-- Takes one byte into a remainder. -/
def step (c : UInt32) (b : UInt8) : UInt32 :=
  remainders.getD ((c ^^^ b.toUInt32) &&& 0xff).toNat 0 ^^^ (c >>> 8)

def checksum (bs : Array UInt8) : UInt32 := bs.foldl step 0xffffffff ^^^ 0xffffffff

/-- The data read from a file, and whether all of it was there and right. -/
structure Reading where
  data : Bytes
  isSound : Bool
deriving DecidableEq

def dropName? : Bytes → Option Bytes
  | [] => none
  | b :: rest => if b = 0 then some rest else dropName? rest

def dropBytes? (n : Nat) (bs : Bytes) : Option Bytes := if n ≤ bs.length then some (bs.drop n) else none

/-- What follows the header. Its flags say which parts it has: an extra field, a name, a comment and a
checksum of its own, which is not looked at. -/
def dropHeader? (bs : Bytes) : Option Bytes :=
  match bs with
  | 0x1f :: 0x8b :: 8 :: flags :: rest => do
    let rest ← dropBytes? 6 rest
    let rest ←
      if flags &&& 4 = 0 then some rest
      else match rest with
        | l₀ :: l₁ :: more => dropBytes? (l₀.toNat + 256 * l₁.toNat) more
        | _ => none
    let rest ← if flags &&& 8 = 0 then some rest else dropName? rest
    let rest ← if flags &&& 16 = 0 then some rest else dropName? rest
    if flags &&& 2 = 0 then some rest else dropBytes? 2 rest
  | _ => none

def trailerMatches (data : Array UInt8) (bs : Bytes) : Bool :=
  bs.length ≥ 8 && Bytes.ofLittleEndian (bs.take 4) == (checksum data).toNat &&
    Bytes.ofLittleEndian ((bs.drop 4).take 4) == data.size % 2 ^ 32

def read (bs : Bytes) : Reading :=
  if bs.isEmpty then ⟨[], true⟩
  else match dropHeader? bs with
    | none => ⟨[], false⟩
    | some rest =>
      match inflate rest with
      | ⟨out, none⟩ => ⟨out.toList, false⟩
      | ⟨out, some b⟩ => ⟨out.toList, trailerMatches out b.toBytes⟩

/-- Blocks of plain bytes, at most `n` of them. -/
def storedBlocks : Nat → Bytes → Bytes
  | 0, _ => []
  | n + 1, bs =>
    let part := bs.take 65535
    let rest := bs.drop 65535
    (if rest.isEmpty then 1 else 0) :: Bytes.littleEndian 2 part.length ++
      Bytes.littleEndian 2 (65535 - part.length) ++ part ++
      if rest.isEmpty then [] else storedBlocks n rest

def write (bs : Bytes) : Bytes :=
  [0x1f, 0x8b, 8, 0, 0, 0, 0, 0, 0, 255] ++ storedBlocks (bs.length / 65535 + 1) bs ++
    Bytes.littleEndian 4 (checksum bs.toArray).toNat ++ Bytes.littleEndian 4 bs.length

end Telemetry.Gzip
