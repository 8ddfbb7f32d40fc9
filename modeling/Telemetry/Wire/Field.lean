import Telemetry.Text.Bytes

/-!
Messages as sequences of numbered fields. A key gives the number and the form of a field; the form
tells where it ends, so a reader can pass over fields that it does not know, also over groups of
fields between an opening and a closing key. Keys and lengths are integers of variable length: seven bits
in each byte, lowest first, and the high bit set in all bytes but the last. A reader takes at most ten bytes
and refuses what does not fit 64 bits; it does not mind bytes that add nothing.
-/
namespace Telemetry.Wire

def varint (n : Nat) : Bytes :=
  if n < 128 then [UInt8.ofNat n] else UInt8.ofNat (n % 128 + 128) :: varint (n / 128)
termination_by n

/-- The number in the next bytes, at most `left` of them. -/
def readVarint : Nat → Bytes → Option (Nat × Bytes)
  | 0, _ => none
  | _, [] => none
  | left + 1, b :: rest =>
    if b < 128 then some (b.toNat, rest)
    else (readVarint left rest).map fun (n, rest) => (b.toNat - 128 + 128 * n, rest)

def varint? (bs : Bytes) : Option (Nat × Bytes) :=
  (readVarint 10 bs).filter fun r => r.1 < 2 ^ 64

inductive Payload where
  | varint (n : Nat)
  | word64 (bytes : Bytes)
  | text (bytes : Bytes)
  | group
  | word32 (bytes : Bytes)
deriving DecidableEq, Repr

structure Field where
  number : Nat
  payload : Payload
deriving DecidableEq, Repr

/-- The forms a key can announce. -/
inductive Form where
  | varint
  | word64
  | text
  | opening
  | closing
  | word32
deriving DecidableEq, Repr

def Form.ofNat? : Nat → Option Form
  | 0 => some varint
  | 1 => some word64
  | 2 => some text
  | 3 => some opening
  | 4 => some closing
  | 5 => some word32
  | _ => none

/-- A field number and a form, from a number below `2 ^ 32`. Field numbers start at one. -/
def key? (bs : Bytes) : Option (Nat × Form × Bytes) := do
  let (k, rest) ← varint? bs
  let form ← Form.ofNat? (k % 8)
  if k < 2 ^ 32 ∧ 8 ≤ k then some (k / 8, form, rest) else none

def take? (n : Nat) (bs : Bytes) : Option (Bytes × Bytes) :=
  if n ≤ bs.length then some (bs.take n, bs.drop n) else none

def payload? (form : Form) (bs : Bytes) : Option (Payload × Bytes) :=
  match form with
  | .varint => (varint? bs).map fun (n, rest) => (.varint n, rest)
  | .word64 => (take? 8 bs).map fun (b, rest) => (.word64 b, rest)
  | .text => ((varint? bs).bind fun (n, rest) => take? n rest).map fun (b, rest) => (.text b, rest)
  | .word32 => (take? 4 bs).map fun (b, rest) => (.word32 b, rest)
  | .opening => none
  | .closing => none

/-- The rest behind the closing key of the outermost of the open groups, whose numbers are given
innermost first. A field needs the depth of its groups to be below `limit`. -/
def skipGroups (limit : Nat) : Nat → List Nat → Bytes → Option Bytes
  | _, [], bs => some bs
  | 0, _ :: _, _ => none
  | fuel + 1, number :: outer, bs => do
    let (n, form, rest) ← key? bs
    match form with
    | .closing => if n = number then skipGroups limit fuel outer rest else none
    | .opening =>
      if outer.length + 1 < limit then skipGroups limit fuel (n :: number :: outer) rest else none
    | form =>
      if outer.length + 1 < limit then
        let (_, rest) ← payload? form rest
        skipGroups limit fuel (number :: outer) rest
      else none

def field? (limit : Nat) (bs : Bytes) : Option (Field × Bytes) := do
  let (n, form, rest) ← key? bs
  match form with
  | .opening =>
    if limit = 0 then none
    else (skipGroups limit (rest.length + 1) [n] rest).map fun rest => (⟨n, .group⟩, rest)
  | form => (payload? form rest).map fun (p, rest) => (⟨n, p⟩, rest)

/-- At most `fuel` fields, and nothing behind them. -/
def fieldsFrom? (limit : Nat) : Nat → Bytes → Option (List Field)
  | _, [] => some []
  | 0, _ => none
  | fuel + 1, bs => do
    let (f, rest) ← field? limit bs
    let fs ← fieldsFrom? limit fuel rest
    some (f :: fs)

/-- The fields of a message; groups may be nested up to `limit` deep. -/
def fields? (limit : Nat) (bs : Bytes) : Option (List Field) := fieldsFrom? limit bs.length bs

def writeVarint (number n : Nat) : Bytes := varint (8 * number) ++ varint n

def writeWord64 (number n : Nat) : Bytes := varint (8 * number + 1) ++ Bytes.littleEndian 8 n

def writeText (number : Nat) (b : Bytes) : Bytes := varint (8 * number + 2) ++ varint b.length ++ b

/-- A text, left out if it is empty. -/
def writeString (number : Nat) (s : String) : Bytes :=
  if s = "" then [] else writeText number (Bytes.ofText s)

end Telemetry.Wire
