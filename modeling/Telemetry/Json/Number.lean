import Telemetry.Binary64.Basic
import Telemetry.Decimal.Layout
import Telemetry.Decimal.Literal
import Telemetry.Json.Scan
import Telemetry.Text.Bytes

/-!
JSON numbers. Integers are read exactly. A fraction is read in two roundings: its digits, as far as
they fit 64 bits, become a number, which is then scaled by a power of ten that is itself rounded, so
the result is not always the nearest number. Writing gives the shortest digits that identify the
number; what has no JSON form is written as null.
-/
namespace Telemetry.Json

structure Numeral where
  negative : Bool
  whole : Bytes
  /-- The digits behind the point, if there is one. -/
  fraction : Option Bytes
  /-- The sign and the digits of the exponent, if there is one. -/
  exponent : Option (Bool × Bytes)
deriving DecidableEq, Repr

namespace Numeral

def exponent? : Bytes → Option (Option (Bool × Bytes))
  | [] => some none
  | b :: rest =>
    if b == 101 || b == 69 then
      let (negative, digits) := match rest with
        | Ascii.minus :: ds => (true, ds)
        | Ascii.plus :: ds => (false, ds)
        | ds => (false, ds)
      if digits.all Ascii.isDigit && !digits.isEmpty then some (some (negative, digits)) else none
    else none

def ofText? (bs : Bytes) : Option Numeral :=
  let (negative, bs) := match bs with
    | Ascii.minus :: rest => (true, rest)
    | rest => (false, rest)
  let whole := bs.takeWhile Ascii.isDigit
  if whole.isEmpty then none
  else match bs.dropWhile Ascii.isDigit with
    | Ascii.point :: rest =>
      let fraction := rest.takeWhile Ascii.isDigit
      if fraction.isEmpty then none
      else (exponent? (rest.dropWhile Ascii.isDigit)).map fun e => ⟨negative, whole, some fraction, e⟩
    | rest => (exponent? rest).map fun e => ⟨negative, whole, none, e⟩

/-- The value of a numeral without a fraction and without an exponent; a negative zero is none. -/
def toInt? (n : Numeral) : Option Int :=
  let m := Ascii.digitsToNat n.whole
  if n.fraction.isSome || n.exponent.isSome || (n.negative && m == 0) then none
  else some (if n.negative then -(m : Int) else m)

/-- Takes digits into a 64-bit number while they fit; gives the number and the digits left over. -/
def takeDigits (acc : Nat) : Bytes → Nat × Bytes
  | [] => (acc, [])
  | b :: bs =>
    let next := acc * 10 + (b.toNat - 48)
    if Text.maxWord < next then (acc, b :: bs) else takeDigits next bs

def powerOfTen (e : Nat) : Binary64 := Decimal.toBinary64 false ⟨1, e⟩

/-- Scales a magnitude by `10 ^ e`, dividing by `10 ^ 308` as often as needed first. A result that is
not finite is refused. -/
def scale? : Nat → Binary64 → Int → Option Binary64
  | 0, x, _ => some x
  | steps + 1, x, e =>
    if e.natAbs ≤ 308 then
      if 0 ≤ e then
        let y := x.mulMagnitude (powerOfTen e.natAbs)
        if y.isFinite then some y else none
      else some (x.divMagnitude (powerOfTen e.natAbs))
    else if x.isZero then some x
    else if 0 ≤ e then none
    else scale? steps (x.divMagnitude (powerOfTen 308)) (e + 308)

def maxExponent : Nat := 2 ^ 31 - 1

/-- The magnitude that a numeral writes, if it is finite. Three divisions by `10 ^ 308` take every
64-bit number to zero. -/
def magnitude? (n : Numeral) : Option Binary64 :=
  let (m, dropped) := takeDigits 0 n.whole
  let (m, unread) := takeDigits m (n.fraction.getD [])
  let scaleOf := (dropped.length : Int) - ((n.fraction.getD []).length - unread.length : Nat)
  match n.exponent with
  | none =>
    if n.fraction.isNone && dropped.isEmpty then some (.ofInt m)
    else scale? 4 (.ofInt m) scaleOf
  | some (negative, digits) =>
    let e := Ascii.digitsToNat digits
    if maxExponent < e then
      if m ≠ 0 ∧ !negative then none else some (.zero false)
    else scale? 4 (.ofInt m) (if negative then scaleOf - e else scaleOf + e)

/-- The number that a numeral writes, if it is finite. -/
def toBinary64? (n : Numeral) : Option Binary64 :=
  n.magnitude?.map fun x => { x with negative := n.negative }

end Numeral

def readInt64? (bs : Bytes) : Option Int64 := do
  let n ← Numeral.ofText? bs
  let i ← n.toInt?
  Text.int64? i

def readBinary64? (bs : Bytes) : Option Binary64 := (Numeral.ofText? bs).bind Numeral.toBinary64?

def null : Bytes := [110, 117, 108, 108]

/-- A value, or none where null is written. -/
def readOptional? {α : Type} (read? : Bytes → Option α) (bs : Bytes) : Option (Option α) :=
  if bs = null then some none else (read? bs).map some

def writeInt64 (n : Int64) : Bytes := Ascii.ofChars (Text.int64Digits n)

/-- The shortest text of a number, of two equally near ones that with the even last digit. -/
def writeBinary64 (x : Binary64) : Bytes :=
  if x.isFinite then Ascii.ofChars (x.write .tagged .even) else null

end Telemetry.Json
