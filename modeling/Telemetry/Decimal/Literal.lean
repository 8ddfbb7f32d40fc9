import Telemetry.Decimal.Basic

/-!
Reading a decimal text as the nearest binary number. A literal has digits before or after an
optional point and an optional exponent; the names of the infinities and of not-a-number are read in
either case. Nothing else is accepted, in particular no blanks and no underscores.
-/
namespace Telemetry.Decimal

def isDigit (c : Char) : Bool := '0' ≤ c && c ≤ '9'

def digitsToNat (cs : List Char) : Nat := cs.foldl (fun acc c => acc * 10 + (c.toNat - 48)) 0

/-- At least one digit and nothing else. -/
def wholeNat? (cs : List Char) : Option Nat :=
  if cs ≠ [] ∧ cs.all isDigit then some (digitsToNat cs) else none

/-- The exponent part of a literal: nothing, or `e` and a whole number with an optional sign. -/
def exponentPart? : List Char → Option Int
  | [] => some 0
  | c :: cs =>
    if c = 'e' ∨ c = 'E' then
      match cs with
      | '+' :: ds => (wholeNat? ds).map fun n => (n : Int)
      | '-' :: ds => (wholeNat? ds).map fun n => -(n : Int)
      | ds => (wholeNat? ds).map fun n => (n : Int)
    else none

/-- The digits behind a point, if there is one, and what follows them. -/
def fractionPart : List Char → List Char × List Char
  | '.' :: cs => (cs.takeWhile isDigit, cs.dropWhile isDigit)
  | cs => ([], cs)

def ofLiteral? (cs : List Char) : Option Decimal :=
  let whole := cs.takeWhile isDigit
  let (fraction, rest) := fractionPart (cs.dropWhile isDigit)
  if whole = [] ∧ fraction = [] then none
  else (exponentPart? rest).map fun e =>
    ⟨digitsToNat (whole ++ fraction), e - (fraction.length : Int)⟩

def lowerAscii (cs : List Char) : List Char := cs.map Char.toLower

end Telemetry.Decimal

namespace Telemetry.Binary64
open Decimal

def ofUnsignedText? (negative : Bool) (cs : List Char) : Option Binary64 :=
  let name := lowerAscii cs
  if name = ['i', 'n', 'f'] ∨ name = ['i', 'n', 'f', 'i', 'n', 'i', 't', 'y'] then
    some (infinity negative)
  else if name = ['n', 'a', 'n'] then some { nan with negative := negative }
  else (ofLiteral? cs).map (toBinary64 negative)

/-- The number nearest to what a text writes. -/
def ofText? : List Char → Option Binary64
  | '+' :: cs => ofUnsignedText? false cs
  | '-' :: cs => ofUnsignedText? true cs
  | cs => ofUnsignedText? false cs

end Telemetry.Binary64
