import Telemetry.Json.Scan

/-!
JSON texts without blanks: strings, and arrays and objects as their parts with commas between them. `quote`
writes a text with the short escapes for the characters that have one and `\u00xx` for the other control
characters; `unquote?` reads every escape, with surrogate pairs, and wants well-formed UTF-8.
-/
namespace Telemetry.Json

/-- The letter of the short escape of a byte. -/
def shortEscape? (b : UInt8) : Option UInt8 :=
  if b == Ascii.quote then some Ascii.quote
  else if b == Ascii.backslash then some Ascii.backslash
  else if b == 8 then some 98
  else if b == 9 then some 116
  else if b == 10 then some 110
  else if b == 12 then some 102
  else if b == 13 then some 114
  else none

def hexByte (n : Nat) : UInt8 := if n < 10 then UInt8.ofNat (48 + n) else UInt8.ofNat (87 + n)

/-- A byte as it stands inside a string. -/
def escapeByte (b : UInt8) : Bytes :=
  match shortEscape? b with
  | some c => [Ascii.backslash, c]
  | none =>
    if b < 32 then [Ascii.backslash, 117, 48, 48, hexByte (b.toNat / 16), hexByte (b.toNat % 16)]
    else [b]

def quote (s : String) : Bytes :=
  Ascii.quote :: (Bytes.ofText s).flatMap escapeByte ++ [Ascii.quote]

def ofShortEscape? (c : UInt8) : Option UInt8 :=
  if c == Ascii.quote then some Ascii.quote
  else if c == Ascii.backslash then some Ascii.backslash
  else if c == Ascii.slash then some Ascii.slash
  else if c == 98 then some 8
  else if c == 102 then some 12
  else if c == 110 then some 10
  else if c == 114 then some 13
  else if c == 116 then some 9
  else none

/-- The number of four hexadecimal digits. -/
def hex4? (a b c d : UInt8) : Option Nat := do
  let a ← Bytes.hexValue? a
  let b ← Bytes.hexValue? b
  let c ← Bytes.hexValue? c
  let d ← Bytes.hexValue? d
  some (((a * 16 + b) * 16 + c) * 16 + d)

/-- The UTF-8 bytes of a code point, last byte first. -/
def codePointReversed (n : Nat) : Bytes := (String.utf8EncodeChar (Char.ofNat n)).reverse

/-- Resolves the escapes up to the closing quote, which has to be the last byte. The result is built
up in reverse. -/
def unescape? (seen : Bytes) : Bytes → Option Bytes
  | 92 :: 117 :: a :: b :: c :: d :: rest =>
    match hex4? a b c d with
    | none => none
    | some high =>
      if 0xDC00 ≤ high ∧ high ≤ 0xDFFF then none
      else if 0xD800 ≤ high ∧ high ≤ 0xDBFF then
        match rest with
        | 92 :: 117 :: e :: f :: g :: h :: rest =>
          match hex4? e f g h with
          | none => none
          | some low =>
            if 0xDC00 ≤ low ∧ low ≤ 0xDFFF then
              unescape? (codePointReversed (0x10000 + (high - 0xD800) * 1024 + (low - 0xDC00)) ++ seen) rest
            else none
        | _ => none
      else unescape? (codePointReversed high ++ seen) rest
  | 92 :: c :: rest =>
    match ofShortEscape? c with
    | some b => unescape? (b :: seen) rest
    | none => none
  | [34] => some seen.reverse
  | b :: rest => if b == Ascii.quote || b < 32 then none else unescape? (b :: seen) rest
  | [] => none

def unquote? : Bytes → Option String
  | Ascii.quote :: rest => (unescape? [] rest).bind Bytes.toText?
  | _ => none

def commaSeparated (parts : List Bytes) : Bytes := [Ascii.comma].intercalate parts

def array (parts : List Bytes) : Bytes :=
  Ascii.bracketOpen :: commaSeparated parts ++ [Ascii.bracketClose]

def member (key : String) (value : Bytes) : Bytes := quote key ++ Ascii.colon :: value

def object (members : List (String × Bytes)) : Bytes :=
  Ascii.braceOpen :: commaSeparated (members.map fun (k, v) => member k v) ++ [Ascii.braceClose]

end Telemetry.Json
