import Telemetry.Text.Bytes

/-!
Base64 with the standard alphabet. Three octets are four characters; a last group that is not full
is filled with the padding character. Only what `encode` writes is read: full padding, and no bits
behind the last octet.
-/
namespace Telemetry.Base64

def symbol (n : Nat) : Char :=
  if n < 26 then Char.ofNat (65 + n)
  else if n < 52 then Char.ofNat (71 + n)
  else if n < 62 then Char.ofNat (n - 4)
  else if n = 62 then '+' else '/'

def value? (c : Char) : Option Nat :=
  let n := c.toNat
  if 65 ≤ n ∧ n ≤ 90 then some (n - 65)
  else if 97 ≤ n ∧ n ≤ 122 then some (n - 71)
  else if 48 ≤ n ∧ n ≤ 57 then some (n + 4)
  else if c = '+' then some 62
  else if c = '/' then some 63
  else none

def encode : Bytes → List Char
  | a :: b :: c :: rest =>
    symbol (a.toNat / 4) :: symbol (a.toNat % 4 * 16 + b.toNat / 16) ::
      symbol (b.toNat % 16 * 4 + c.toNat / 64) :: symbol (c.toNat % 64) :: encode rest
  | [a, b] =>
    [symbol (a.toNat / 4), symbol (a.toNat % 4 * 16 + b.toNat / 16), symbol (b.toNat % 16 * 4), '=']
  | [a] => [symbol (a.toNat / 4), symbol (a.toNat % 4 * 16), '=', '=']
  | [] => []

/-- One octet from two characters; the four bits left over have to be zero. -/
def one? (a b : Char) : Option Bytes := do
  let a ← value? a
  let b ← value? b
  if b % 16 = 0 then some [UInt8.ofNat (a * 4 + b / 16)] else none

/-- Two octets from three characters; the two bits left over have to be zero. -/
def two? (a b c : Char) : Option Bytes := do
  let a ← value? a
  let b ← value? b
  let c ← value? c
  if c % 4 = 0 then some [UInt8.ofNat (a * 4 + b / 16), UInt8.ofNat (b % 16 * 16 + c / 4)] else none

/-- Three octets from four characters. -/
def three? (a b c d : Char) : Option Bytes := do
  let a ← value? a
  let b ← value? b
  let c ← value? c
  let d ← value? d
  some [UInt8.ofNat (a * 4 + b / 16), UInt8.ofNat (b % 16 * 16 + c / 4), UInt8.ofNat (c % 4 * 64 + d)]

/-- Reads what `encode` writes and nothing else. -/
def decode? : List Char → Option Bytes
  | [] => some []
  | [a, b, '=', '='] => one? a b
  | [a, b, c, '='] => two? a b c
  | a :: b :: c :: d :: rest => do
    let group ← three? a b c d
    let tail ← decode? rest
    some (group ++ tail)
  | _ => none

theorem value?_symbol {n : Nat} (h : n < 64) : value? (symbol n) = some n := by
  have : ∀ n < 64, value? (symbol n) = some n := by decide
  exact this n h

theorem symbol_ne_padding {n : Nat} (h : n < 64) : symbol n ≠ '=' := by
  have : ∀ n < 64, symbol n ≠ '=' := by decide
  exact this n h

end Telemetry.Base64
