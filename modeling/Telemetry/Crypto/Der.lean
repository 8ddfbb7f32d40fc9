import Telemetry.Text.Bytes

/-!
The distinguished encoding of ASN.1 values: a tag, the length of the content in its only shortest
form, and the content. Nothing is read that has a second form.
-/
namespace Telemetry.Der

def length? : Bytes → Option (Nat × Bytes)
  | [] => none
  | b :: rest =>
    if b < 128 then some (b.toNat, rest)
    else
      let n := b.toNat - 128
      let digits := rest.take n
      let v := Bytes.toNat digits
      if n = 0 ∨ 4 < n ∨ digits.length < n ∨ v < 128 ∨ v < 256 ^ (n - 1) ∨ 2 ^ 28 ≤ v then none
      else some (v, rest.drop n)

/-- The tags of one byte that stand for a type. -/
def isTag (b : UInt8) : Bool :=
  if b < 64 then
    b ∈ ([1, 2, 3, 4, 5, 6, 9, 10, 12, 18, 19, 20, 21, 22, 23, 24, 26, 29, 30, 48, 49] : Bytes)
  else b.toNat % 32 ≠ 31

/-- A tag of the class for fields that are told apart by their number. -/
def isNumbered (b : UInt8) : Bool := b.toNat / 64 = 2

def number (b : UInt8) : Nat := b.toNat % 32

/-- Such a field that holds a whole value rather than the content of one. -/
def isConstructed (b : UInt8) : Bool := b.toNat / 32 % 2 = 1

def value? : Bytes → Option (UInt8 × Bytes × Bytes)
  | [] => none
  | tag :: rest => do
    let (n, rest) ← length? rest
    if isTag tag ∧ n ≤ rest.length then some (tag, rest.take n, rest.drop n) else none

def content? (tag : UInt8) (bs : Bytes) : Option (Bytes × Bytes) := do
  let (t, content, rest) ← value? bs
  if t = tag then some (content, rest) else none

def only? (tag : UInt8) (bs : Bytes) : Option Bytes := do
  let (content, rest) ← content? tag bs
  if rest.isEmpty then some content else none

def natContent? : Bytes → Option Nat
  | [] => none
  | [b] => if b < 128 then some b.toNat else none
  | a :: b :: rest =>
    if a = 0 then if b < 128 then none else some (Bytes.toNat (b :: rest))
    else if a < 128 then some (Bytes.toNat (a :: b :: rest)) else none

def nat? (bs : Bytes) : Option (Nat × Bytes) := do
  let (content, rest) ← content? 2 bs
  let n ← natContent? content
  some (n, rest)

/-- A fixed number of such integers, and nothing behind them. -/
def nats? : Nat → Bytes → Option (List Nat)
  | 0, bs => if bs.isEmpty then some [] else none
  | n + 1, bs => do
    let (m, rest) ← nat? bs
    let ms ← nats? n rest
    some (m :: ms)

def bits? (content : Bytes) : Option Bytes :=
  match content with
  | 0 :: rest => some rest
  | _ => none

end Telemetry.Der
