import Telemetry.Decimal.Literal
import Telemetry.Toml.Item
import Telemetry.Toml.Text

/-!
The numbers and times of TOML. Integers have 64 bits, in four bases; underscores may stand between
digits, and a decimal integer has no leading zero. Of fractions and times only the form matters here.
-/
namespace Telemetry.Toml

def isDigit (c : Char) : Bool := '0' ≤ c && c ≤ '9'

/-- Digits of a base with single underscores between them; gives their values. -/
def digits? (value? : Char → Option Nat) : Chars → Option (List Nat × Chars)
  | [] => none
  | c :: cs => (value? c).map fun d =>
    let (ds, rest) := more cs
    (d :: ds, rest)
where
  more : Chars → List Nat × Chars
    | [] => ([], [])
    | '_' :: c :: cs =>
      match value? c with
      | some d => let (ds, rest) := more cs; (d :: ds, rest)
      | none => ([], '_' :: c :: cs)
    | c :: cs =>
      match value? c with
      | some d => let (ds, rest) := more cs; (d :: ds, rest)
      | none => ([], c :: cs)

def digitIn? (base : Nat) (c : Char) : Option Nat := (hexDigit? c).filter (· < base)

def ofDigits (base : Nat) (ds : List Nat) : Nat := ds.foldl (fun acc d => acc * base + d) 0

def bounded? (n : Int) : Option Item :=
  (Text.int64? n).map fun n => .integer n.toInt

def inBase? (base : Nat) (cs : Chars) : Option (Item × Chars) := do
  let (ds, rest) ← digits? (digitIn? base) cs
  let v ← bounded? (ofDigits base ds)
  some (v, rest)

def sign : Chars → Bool × Chars
  | '-' :: rest => (true, rest)
  | '+' :: rest => (false, rest)
  | rest => (false, rest)

/-- The digits of a decimal integer: a zero alone, or no zero in front. -/
def wholePart? (cs : Chars) : Option (List Nat × Chars) :=
  match cs with
  | '0' :: rest => some ([0], rest)
  | cs => digits? (digitIn? 10) cs

def decimal? (cs : Chars) : Option (Item × Chars) := do
  let (negative, cs) := sign cs
  let (ds, rest) ← wholePart? cs
  let n : Int := ofDigits 10 ds
  let v ← bounded? (if negative then -n else n)
  some (v, rest)

def exponent? : Chars → Option Chars
  | c :: rest =>
    if c = 'e' ∨ c = 'E' then (digits? (digitIn? 10) (sign rest).2).map (·.2) else none
  | [] => none

/-- A number with a fraction or an exponent, or one with a name; not a number that is too large. -/
def fraction? (cs : Chars) : Option (Item × Chars) :=
  match (sign cs).2 with
  | 'i' :: 'n' :: 'f' :: rest => some (.fraction, rest)
  | 'n' :: 'a' :: 'n' :: rest => some (.fraction, rest)
  | body => do
    let (_, rest) ← wholePart? body
    let rest ← match rest with
      | '.' :: rest => (digits? (digitIn? 10) rest).map fun (_, rest) => (exponent? rest).getD rest
      | rest => exponent? rest
    let text := (cs.take (cs.length - rest.length)).filter (· != '_')
    if Binary64.ofText? text = some (.infinity false) then none else some (.fraction, rest)

def fixed? (count low high : Nat) (cs : Chars) : Option (Nat × Chars) :=
  let ds := cs.take count
  let n := ofDigits 10 (ds.filterMap (digitIn? 10))
  if ds.length = count ∧ ds.all isDigit ∧ low ≤ n ∧ n ≤ high then some (n, cs.drop count) else none

def char? (c : Char) : Chars → Option Chars
  | d :: rest => if c = d then some rest else none
  | [] => none

def daysIn (year month : Nat) : Nat :=
  if month = 2 then
    if (year % 4 = 0 ∧ year % 100 ≠ 0) ∨ year % 400 = 0 then 29 else 28
  else if month = 4 ∨ month = 6 ∨ month = 9 ∨ month = 11 then 30 else 31

def date? (cs : Chars) : Option Chars := do
  let (year, cs) ← fixed? 4 0 9999 cs
  let (month, cs) ← (char? '-' cs).bind (fixed? 2 1 12)
  let (_, cs) ← (char? '-' cs).bind (fixed? 2 1 (daysIn year month))
  some cs

def timeOfDay? (cs : Chars) : Option Chars := do
  let (_, cs) ← fixed? 2 0 23 cs
  let (_, cs) ← (char? ':' cs).bind (fixed? 2 0 59)
  let (_, cs) ← (char? ':' cs).bind (fixed? 2 0 60)
  match cs with
  | '.' :: rest =>
    let n := (rest.takeWhile isDigit).length
    if n = 0 then some cs else some (rest.drop n)
  | cs => some cs

def offset? : Chars → Option Chars
  | 'Z' :: rest => some rest
  | 'z' :: rest => some rest
  | c :: rest =>
    if c = '+' ∨ c = '-' then do
      let (_, cs) ← fixed? 2 0 23 rest
      let (_, cs) ← (char? ':' cs).bind (fixed? 2 0 59)
      some cs
    else none
  | [] => none

/-- A date, a time of day, or both with or without an offset. -/
def time? (cs : Chars) : Option (Item × Chars) :=
  match date? cs with
  | some rest =>
    let both := match rest with
      | c :: more =>
        if c = 'T' ∨ c = 't' ∨ c = ' ' then (timeOfDay? more).map fun r => (offset? r).getD r
        else none
      | [] => none
    some (.time, both.getD rest)
  | none => (timeOfDay? cs).map (.time, ·)

/-- A number or a time; the text starts with a digit or a sign. -/
def number? (cs : Chars) : Option (Item × Chars) :=
  match cs with
  | '0' :: 'x' :: rest => inBase? 16 rest
  | '0' :: 'o' :: rest => inBase? 8 rest
  | '0' :: 'b' :: rest => inBase? 2 rest
  | cs => ((time? cs).or (fraction? cs)).or (decimal? cs)

def word? (word : Chars) (v : Item) (cs : Chars) : Option (Item × Chars) :=
  if word.isPrefixOf cs then some (v, cs.drop word.length) else none

def scalarValue? (cs : Chars) : Option (Item × Chars) :=
  match cs with
  | [] => none
  | c :: _ =>
    if c = '"' ∨ c = '\'' then (string? cs).map fun (s, rest) => (.string s, rest)
    else if c = 't' then word? ['t', 'r', 'u', 'e'] (.boolean true) cs
    else if c = 'f' then word? ['f', 'a', 'l', 's', 'e'] (.boolean false) cs
    else if c = 'i' ∨ c = 'n' then fraction? cs
    else if isDigit c ∨ c = '+' ∨ c = '-' then number? cs
    else none

end Telemetry.Toml
