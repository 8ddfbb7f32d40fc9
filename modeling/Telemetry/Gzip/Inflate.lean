import Telemetry.Text.Bytes

/-!
Reading compressed data: blocks of plain bytes or of symbols, where a symbol is a byte, the end of the
block, or a distance and a length of bytes to repeat. Symbols are written in canonical prefix codes,
given by the lengths of their codes. The output is kept also when the data turns out to be broken.
-/
namespace Telemetry.Gzip

/-- The bits that are still to be read: some low bits of a number, then bytes from their lowest bit. -/
structure Bits where
  buffer : Nat
  count : Nat
  rest : Bytes

namespace Bits

/-- Reads bytes until there are at least `n` bits. -/
def fill (n buffer count : Nat) : Bytes → Bits
  | [] => ⟨buffer, count, []⟩
  | b :: rest =>
    if n ≤ count then ⟨buffer, count, b :: rest⟩
    else fill n (buffer + b.toNat * 2 ^ count) (count + 8) rest

/-- The next `n` bits as a number, the first bit lowest. -/
def take? (n : Nat) (b : Bits) : Option (Nat × Bits) :=
  let b := fill n b.buffer b.count b.rest
  if b.count < n then none
  else some (b.buffer % 2 ^ n, ⟨b.buffer / 2 ^ n, b.count - n, b.rest⟩)

/-- The bytes behind the byte that the last bit was read from. -/
def toBytes (b : Bits) : Bytes :=
  (List.range (b.count / 8)).map (fun i =>
    UInt8.ofNat (b.buffer / 2 ^ (b.count % 8) / 256 ^ i % 256)) ++ b.rest

end Bits

/-- A canonical prefix code: how many codes have one bit, two bits and so on, and the symbols in the
order of their codes. -/
structure PrefixCode where
  counts : List Nat
  symbols : Array Nat

namespace PrefixCode

def maxLength : Nat := 15

/-- The space that codes take up, in units of the longest code. -/
def space (counts : List Nat) : Nat :=
  counts.zipIdx.foldl (fun acc (n, i) => acc + n * 2 ^ (maxLength - 1 - i)) 0

/-- The code whose lengths are given for each symbol; length zero means that a symbol has none. The
codes have to fill the space, unless there is at most one. -/
def ofLengths? (lengths : List Nat) : Option PrefixCode :=
  let counts := (List.range maxLength).map fun i => lengths.count (i + 1)
  let used := counts.foldl (· + ·) 0
  if space counts = 2 ^ maxLength ∨ (used ≤ 1 ∧ space counts ≤ 2 ^ maxLength) then
    let symbols := (List.range maxLength).flatMap fun i =>
      (lengths.zipIdx.filter fun (n, _) => n == i + 1).map (·.2)
    some ⟨counts, symbols.toArray⟩
  else none

/-- Reads one symbol. `code` is what was read so far, `first` the first code of the next length and
`index` the number of shorter codes. -/
def symbolFrom? (symbols : Array Nat) : List Nat → Nat → Nat → Nat → Bits → Option (Nat × Bits)
  | [], _, _, _, _ => none
  | n :: counts, code, first, index, b =>
    match b.take? 1 with
    | none => none
    | some (bit, b) =>
      let code := 2 * code + bit
      if code < first + n then
        match symbols[index + (code - first)]? with
        | some s => some (s, b)
        | none => none
      else symbolFrom? symbols counts code (2 * (first + n)) (index + n) b

def symbol? (c : PrefixCode) (b : Bits) : Option (Nat × Bits) :=
  symbolFrom? c.symbols c.counts 0 0 0 b

end PrefixCode

/-- The base and the number of further bits of the lengths from symbol 257 on. -/
def lengthTable : Array (Nat × Nat) := #[
  (3, 0), (4, 0), (5, 0), (6, 0), (7, 0), (8, 0), (9, 0), (10, 0), (11, 1), (13, 1), (15, 1), (17, 1),
  (19, 2), (23, 2), (27, 2), (31, 2), (35, 3), (43, 3), (51, 3), (59, 3), (67, 4), (83, 4), (99, 4),
  (115, 4), (131, 5), (163, 5), (195, 5), (227, 5), (258, 0)]

def distanceTable : Array (Nat × Nat) := #[
  (1, 0), (2, 0), (3, 0), (4, 0), (5, 1), (7, 1), (9, 2), (13, 2), (17, 3), (25, 3), (33, 4), (49, 4),
  (65, 5), (97, 5), (129, 6), (193, 6), (257, 7), (385, 7), (513, 8), (769, 8), (1025, 9), (1537, 9),
  (2049, 10), (3073, 10), (4097, 11), (6145, 11), (8193, 12), (12289, 12), (16385, 13), (24577, 13)]

/-- The output so far, and the bits behind what was read; without them the data is broken. -/
structure Progress where
  output : Array UInt8
  bits : Option Bits

/-- Repeats `n` bytes from `distance` bytes before the end. -/
def repeatBytes (distance : Nat) : Nat → Array UInt8 → Array UInt8
  | 0, out => out
  | n + 1, out => repeatBytes distance n (out.push (out.getD (out.size - distance) 0))

def extended? (table : Array (Nat × Nat)) (i : Nat) (b : Bits) : Option (Nat × Bits) :=
  match table[i]? with
  | none => none
  | some (base, extra) => (b.take? extra).map fun (n, b) => (base + n, b)

def pair? (distances : PrefixCode) (symbol : Nat) (b : Bits) : Option (Nat × Nat × Bits) := do
  let (length, b) ← extended? lengthTable (symbol - 257) b
  let (s, b) ← distances.symbol? b
  let (distance, b) ← extended? distanceTable s b
  some (length, distance, b)

def symbols (literals distances : PrefixCode) : Nat → Array UInt8 → Bits → Progress
  | 0, out, _ => ⟨out, none⟩
  | fuel + 1, out, b =>
    match literals.symbol? b with
    | none => ⟨out, none⟩
    | some (s, b) =>
      if s < 256 then symbols literals distances fuel (out.push (UInt8.ofNat s)) b
      else if s = 256 then ⟨out, some b⟩
      else match pair? distances s b with
        | none => ⟨out, none⟩
        | some (length, distance, b) =>
          if distance ≤ out.size then
            symbols literals distances fuel (repeatBytes distance length out) b
          else ⟨out, none⟩

/-- A block of plain bytes: its length, the complement of the length, and the bytes. -/
def stored (out : Array UInt8) (b : Bits) : Progress :=
  match b.toBytes with
  | l₀ :: l₁ :: n₀ :: n₁ :: rest =>
    let length := l₀.toNat + 256 * l₁.toNat
    if length + (n₀.toNat + 256 * n₁.toNat) ≠ 65535 then ⟨out, none⟩
    else
      let out := (rest.take length).foldl Array.push out
      if rest.length < length then ⟨out, none⟩ else ⟨out, some ⟨0, 0, rest.drop length⟩⟩
  | _ => ⟨out, none⟩

/-- The lengths of the codes of a block with the fixed codes. -/
def fixedLengths : List Nat :=
  List.replicate 144 8 ++ List.replicate 112 9 ++ List.replicate 24 7 ++ List.replicate 8 8

def lengthOrder : List Nat := [16, 17, 18, 0, 8, 7, 9, 6, 10, 5, 11, 4, 12, 3, 13, 2, 14, 1, 15]

def triples? : Nat → Bits → Option (List Nat × Bits)
  | 0, b => some ([], b)
  | n + 1, b => do
    let (x, b) ← b.take? 3
    let (xs, b) ← triples? n b
    some (x :: xs, b)

/-- Code lengths, the last first, until there are at least `total`; symbols above 15 repeat the last
length or zero. -/
def lengths? (code : PrefixCode) (total : Nat) : Nat → List Nat → Bits → Option (List Nat × Bits)
  | 0, _, _ => none
  | fuel + 1, seen, b =>
    if total ≤ seen.length then some (seen, b)
    else do
      let (s, b) ← code.symbol? b
      if s < 16 then lengths? code total fuel (s :: seen) b
      else if s = 16 then
        let last ← seen.head?
        let (n, b) ← b.take? 2
        lengths? code total fuel (List.replicate (n + 3) last ++ seen) b
      else
        let (n, b) ← b.take? (if s = 17 then 3 else 7)
        lengths? code total fuel (List.replicate (n + if s = 17 then 3 else 11) 0 ++ seen) b

/-- The codes that a block brings with it. -/
def blockCodes? (b : Bits) : Option (PrefixCode × PrefixCode × Bits) := do
  let (l, b) ← b.take? 5
  let (d, b) ← b.take? 5
  let (c, b) ← b.take? 4
  let (ts, b) ← triples? (c + 4) b
  let code ← PrefixCode.ofLengths? ((List.range 19).map fun i => ((lengthOrder.zip ts).lookup i).getD 0)
  let total := l + 257 + (d + 1)
  let (seen, b) ← lengths? code total (total + 1) [] b
  let all := seen.reverse
  if all.length ≠ total ∨ 286 < l + 257 ∨ all.getD 256 0 = 0 then none
  else
    let literals ← PrefixCode.ofLengths? (all.take (l + 257))
    let distances ← PrefixCode.ofLengths? (all.drop (l + 257))
    some (literals, distances, b)

def block (fuel type : Nat) (out : Array UInt8) (b : Bits) : Progress :=
  match type with
  | 0 => stored out b
  | 1 =>
    match PrefixCode.ofLengths? fixedLengths, PrefixCode.ofLengths? (List.replicate 32 5) with
    | some literals, some distances => symbols literals distances fuel out b
    | _, _ => ⟨out, none⟩
  | 2 =>
    match blockCodes? b with
    | some (literals, distances, b) => symbols literals distances fuel out b
    | none => ⟨out, none⟩
  | _ => ⟨out, none⟩

def blocks (symbolFuel : Nat) : Nat → Array UInt8 → Bits → Progress
  | 0, out, _ => ⟨out, none⟩
  | fuel + 1, out, b =>
    match b.take? 3 with
    | none => ⟨out, none⟩
    | some (n, b) =>
      match block symbolFuel (n / 2) out b with
      | ⟨out, none⟩ => ⟨out, none⟩
      | ⟨out, some b⟩ => if n % 2 = 1 then ⟨out, some b⟩ else blocks symbolFuel fuel out b

/-- Reads compressed data. Every block and every symbol takes at least one bit. -/
def inflate (bs : Bytes) : Progress :=
  let fuel := 8 * bs.length + 1
  blocks fuel fuel #[] ⟨0, 0, bs⟩

end Telemetry.Gzip
