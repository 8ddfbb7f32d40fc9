/-!
Byte strings and their texts: UTF-8, hexadecimal digits, percent encoding, and the ASCII characters that
the byte-level formats are made of. Reading UTF-8 gives back exactly the text that was written, and nothing
else is accepted. Powers are the core's recursive function within this library, whatever other powers are
known where it is used.
-/
namespace Telemetry

@[default_instance 20000]
instance (priority := 2000) natPower : Pow Nat Nat := ⟨Nat.pow⟩

/-- A finite sequence of octets. -/
abbrev Bytes := List UInt8

namespace Bytes

def ofText (s : String) : Bytes := s.toByteArray.data.toList

/-- The text that a byte string encodes, if it is well-formed UTF-8. -/
def toText? (b : Bytes) : Option String := String.fromUTF8? ⟨b.toArray⟩

@[simp] theorem toText?_ofText (s : String) : toText? (ofText s) = some s := by
  cases s with
  | ofByteArray b h => simp [toText?, ofText, String.fromUTF8?, String.fromUTF8, h]

theorem eq_ofText_of_toText? {b : Bytes} {s : String} (h : toText? b = some s) : b = ofText s := by
  unfold toText? String.fromUTF8? at h
  split at h
  · cases h
    simp [ofText, String.fromUTF8]
  · simp at h

theorem ofText_ofList (cs : List Char) :
    ofText (String.ofList cs) = cs.flatMap String.utf8EncodeChar := by
  simp [ofText, String.ofList, List.utf8Encode]

def dropBeginning? (start : Bytes) (b : Bytes) : Option Bytes :=
  if start.isPrefixOf b then some (b.drop start.length) else none

def dropEnd? (ending : Bytes) (b : Bytes) : Option Bytes :=
  (dropBeginning? ending.reverse b.reverse).map List.reverse

/-- The two lower-case digits of an octet. -/
def hexDigit (n : Nat) : Char := if n < 10 then Char.ofNat (48 + n) else Char.ofNat (87 + n)

def toHex (b : Bytes) : String :=
  String.ofList (b.flatMap fun x => [hexDigit (x.toNat / 16), hexDigit (x.toNat % 16)])

def hexValue? (c : UInt8) : Option Nat :=
  if 48 ≤ c ∧ c ≤ 57 then some (c.toNat - 48)
  else if 97 ≤ c ∧ c ≤ 102 then some (c.toNat - 87)
  else if 65 ≤ c ∧ c ≤ 70 then some (c.toNat - 55)
  else none

def ofHex? : Bytes → Option Bytes
  | [] => some []
  | [_] => none
  | hi :: lo :: rest => do
    let h ← hexValue? hi
    let l ← hexValue? lo
    let tail ← ofHex? rest
    some (UInt8.ofNat (16 * h + l) :: tail)

/-- The number whose base-256 digits, most significant first, are the given octets. -/
def toNat (b : Bytes) : Nat := b.foldl (fun acc x => acc * 256 + x.toNat) 0

/-- The `n` low base-256 digits of a number, least significant first. -/
def littleEndian : Nat → Nat → Bytes
  | 0, _ => []
  | n + 1, v => UInt8.ofNat (v % 256) :: littleEndian n (v / 256)

def ofLittleEndian : Bytes → Nat
  | [] => 0
  | x :: rest => x.toNat + 256 * ofLittleEndian rest

/-- The `n` low base-256 digits of a number, most significant first. -/
def bigEndian (n v : Nat) : Bytes := (littleEndian n v).reverse

@[simp] theorem length_littleEndian (n v : Nat) : (littleEndian n v).length = n := by
  induction n generalizing v with
  | zero => rfl
  | succ n ih => simp [littleEndian, ih]

@[simp] theorem length_bigEndian (n v : Nat) : (bigEndian n v).length = n := by
  simp [bigEndian]

theorem ofLittleEndian_littleEndian (n v : Nat) (h : v < 256 ^ n) :
    ofLittleEndian (littleEndian n v) = v := by
  induction n generalizing v with
  | zero => simp at h; simp [littleEndian, ofLittleEndian, h]
  | succ n ih =>
    have hd : v / 256 < 256 ^ n := by
      rw [Nat.div_lt_iff_lt_mul (by decide)]
      simpa [Nat.pow_succ] using h
    simp only [littleEndian, ofLittleEndian, ih _ hd, UInt8.toNat_ofNat']
    omega

end Bytes

namespace Text

/-- Resolves percent signs with two digits behind them; others stand for themselves. -/
def unescape : Bytes → Bytes
  | [] => []
  | 37 :: hi :: lo :: rest =>
    match Bytes.hexValue? hi, Bytes.hexValue? lo with
    | some h, some l => UInt8.ofNat (16 * h + l) :: unescape rest
    | _, _ => 37 :: unescape (hi :: lo :: rest)
  | b :: rest => b :: unescape rest

def unescapeText? (s : String) : Option String := (unescape (Bytes.ofText s)).toText?

end Text

namespace Ascii

@[match_pattern] abbrev tab : UInt8 := 9
@[match_pattern] abbrev lineFeed : UInt8 := 10
@[match_pattern] abbrev carriageReturn : UInt8 := 13
@[match_pattern] abbrev space : UInt8 := 32
@[match_pattern] abbrev quote : UInt8 := 34
@[match_pattern] abbrev plus : UInt8 := 43
@[match_pattern] abbrev comma : UInt8 := 44
@[match_pattern] abbrev minus : UInt8 := 45
@[match_pattern] abbrev point : UInt8 := 46
@[match_pattern] abbrev slash : UInt8 := 47
@[match_pattern] abbrev zero : UInt8 := 48
@[match_pattern] abbrev colon : UInt8 := 58
@[match_pattern] abbrev bracketOpen : UInt8 := 91
@[match_pattern] abbrev backslash : UInt8 := 92
@[match_pattern] abbrev bracketClose : UInt8 := 93
@[match_pattern] abbrev braceOpen : UInt8 := 123
@[match_pattern] abbrev braceClose : UInt8 := 125

def ofChar (c : Char) : UInt8 := UInt8.ofNat c.toNat

def ofChars (cs : List Char) : List UInt8 := cs.map ofChar

def isDigit (b : UInt8) : Bool := 48 ≤ b && b ≤ 57

/-- Space, tab, line feed or carriage return. -/
def isBlank (b : UInt8) : Bool := b == space || b == tab || b == lineFeed || b == carriageReturn

def digitsToNat (bs : List UInt8) : Nat := bs.foldl (fun acc b => acc * 10 + (b.toNat - 48)) 0

end Ascii
end Telemetry
