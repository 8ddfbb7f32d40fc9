import Telemetry.Decimal.Shortest

/-!
The written form of a decimal: its digits with a point among them, or one digit, a point, the other
digits and a power of ten. A `Layout` holds the decisions that formats make differently.
-/
namespace Telemetry.Decimal

/-- The decisions of a number format. -/
structure Layout where
  /-- Whether a number with this many digits before its point is written without an exponent. -/
  positional : Int → Bool
  /-- What follows a whole number that is written without an exponent. -/
  wholeSuffix : List Char
  /-- The sign of an exponent that is not negative. -/
  plus : List Char

/-- Never an exponent, and whole numbers without a point. -/
def Layout.plain : Layout := ⟨fun _ => true, [], []⟩

/-- An exponent from 10 ^ 16 on and below 10 ^ -5, its sign always written; whole numbers end in
a point and a zero. -/
def Layout.tagged : Layout := ⟨fun point => -5 < point && point ≤ 16, ['.', '0'], ['+']⟩

def positionalText (suffix : List Char) (d : Decimal) : List Char :=
  let digits := Text.natDigits d.coefficient
  let point := (digits.length : Int) + d.exponent
  if 0 ≤ d.exponent then digits ++ List.replicate d.exponent.toNat '0' ++ suffix
  else if 0 < point then digits.take point.toNat ++ '.' :: digits.drop point.toNat
  else '0' :: '.' :: (List.replicate (-point).toNat '0' ++ digits)

def exponentText (plus : List Char) (d : Decimal) : List Char :=
  let digits := Text.natDigits d.coefficient
  let e := (digits.length : Int) + d.exponent - 1
  let fraction := digits.drop 1
  digits.take 1 ++ (if fraction = [] then [] else '.' :: fraction) ++
    'e' :: ((if e < 0 then ['-'] else plus) ++ Text.natDigits e.natAbs)

def Layout.write (l : Layout) (d : Decimal) : List Char :=
  if l.positional ((Text.natDigits d.coefficient).length + d.exponent) then
    positionalText l.wholeSuffix d
  else exponentText l.plus d

end Telemetry.Decimal

namespace Telemetry.Binary64

/-- The shortest decimal text that reads back, in a layout; infinities and not-a-number by name. -/
def write (layout : Decimal.Layout) (tie : Decimal.Tie) (x : Binary64) : List Char :=
  if x.isNaN then ['N', 'a', 'N']
  else (if x.negative then ['-'] else []) ++
    if x.isFinite then layout.write (Decimal.shortest tie x.index) else ['i', 'n', 'f']

def text (x : Binary64) : List Char := x.write .plain .up

end Telemetry.Binary64
