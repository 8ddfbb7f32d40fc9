import Telemetry.Text.Bytes

/-!
The words of TOML: blanks, comments, line ends, strings and keys. Every reader takes the longest word
of its kind from the start of the text and gives what follows.
-/
namespace Telemetry.Toml

abbrev Chars := List Char

def isBlank (c : Char) : Bool := c == ' ' || c == '\t'

def skipBlanks (cs : Chars) : Chars := cs.dropWhile isBlank

/-- A character that may stand in a comment or in a literal string: no control character but a tab. -/
def isPlain (c : Char) : Bool := c == '\t' || (0x20 ≤ c.toNat && c.toNat ≠ 0x7F)

def lineEnd? : Chars → Option Chars
  | '\n' :: rest => some rest
  | '\r' :: '\n' :: rest => some rest
  | _ => none

/-- The rest of a line behind a statement: blanks, a comment, and the end of the line or the text. -/
def endOfLine? (cs : Chars) : Option Chars :=
  let cs := skipBlanks cs
  let cs := match cs with
    | '#' :: rest => rest.dropWhile isPlain
    | cs => cs
  match cs with
  | [] => some []
  | cs => lineEnd? cs

/-- Passes over blanks, comments and line ends between the parts of an array. A comment has to end
with its line. -/
def skipLines : Nat → Chars → Option Chars
  | 0, cs => some cs
  | fuel + 1, cs =>
    match skipBlanks cs with
    | '#' :: rest => (lineEnd? (rest.dropWhile isPlain)).bind (skipLines fuel)
    | cs =>
      match lineEnd? cs with
      | some rest => skipLines fuel rest
      | none => some cs

def scalar? (n : Nat) : Option Char := if n.isValidChar then some (Char.ofNat n) else none

def hexDigit? (c : Char) : Option Nat := if c.toNat < 128 then Bytes.hexValue? c.toUInt8 else none

def hexNumber? : Nat → Nat → Chars → Option (Nat × Chars)
  | 0, acc, cs => some (acc, cs)
  | count + 1, acc, c :: cs => (hexDigit? c).bind fun d => hexNumber? count (acc * 16 + d) cs
  | _, _, [] => none

/-- The character that an escape stands for; the text starts behind the backslash. -/
def escape? : Chars → Option (Char × Chars)
  | 'b' :: rest => some ('\x08', rest)
  | 't' :: rest => some ('\t', rest)
  | 'n' :: rest => some ('\n', rest)
  | 'f' :: rest => some ('\x0c', rest)
  | 'r' :: rest => some ('\r', rest)
  | '"' :: rest => some ('"', rest)
  | '\\' :: rest => some ('\\', rest)
  | 'u' :: rest => (hexNumber? 4 0 rest).bind fun (n, rest) => (scalar? n).map (·, rest)
  | 'U' :: rest => (hexNumber? 8 0 rest).bind fun (n, rest) => (scalar? n).map (·, rest)
  | _ => none

/-- The rest of a string in double quotes; what was read so far is given backwards. -/
def basic? : Nat → Chars → Chars → Option (Chars × Chars)
  | 0, _, _ => none
  | fuel + 1, seen, cs =>
    match cs with
    | '"' :: rest => some (seen.reverse, rest)
    | '\\' :: rest => (escape? rest).bind fun (c, rest) => basic? fuel (c :: seen) rest
    | c :: rest => if isPlain c then basic? fuel (c :: seen) rest else none
    | [] => none

def literal? (cs : Chars) : Option (Chars × Chars) :=
  match cs.dropWhile fun c => isPlain c && c != '\'' with
  | '\'' :: rest => some (cs.takeWhile fun c => isPlain c && c != '\'', rest)
  | _ => none

/-- Passes over the blanks and line ends behind a backslash at the end of a line. -/
def skipContinuation (cs : Chars) : Option Chars :=
  (lineEnd? (skipBlanks cs)).map fun rest => drop rest.length rest
where
  drop : Nat → Chars → Chars
    | 0, cs => cs
    | fuel + 1, cs =>
      match skipBlanks cs with
      | cs =>
        match lineEnd? cs with
        | some rest => drop fuel rest
        | none => cs

/-- The rest of a string in three quotes. Up to two quotes before the closing ones belong to it, and
each line end counts as a line feed. Escapes are read where `escapes` holds. -/
def multiline? (quote : Char) (escapes : Bool) : Nat → Chars → Chars → Option (Chars × Chars)
  | 0, _, _ => none
  | fuel + 1, seen, cs =>
    match cs with
    | [] => none
    | c :: rest =>
      if c = quote then
        let quotes := cs.takeWhile (· = quote)
        if quotes.length < 3 then multiline? quote escapes fuel (c :: seen) rest
        else
          let extra := min (quotes.length - 3) 2
          some ((List.replicate extra quote ++ seen).reverse, cs.drop (extra + 3))
      else if escapes && c == '\\' then
        match escape? rest with
        | some (c, rest) => multiline? quote escapes fuel (c :: seen) rest
        | none => (skipContinuation rest).bind fun rest => multiline? quote escapes fuel seen rest
      else match lineEnd? cs with
        | some rest => multiline? quote escapes fuel ('\n' :: seen) rest
        | none => if isPlain c then multiline? quote escapes fuel (c :: seen) rest else none

/-- A string of any of the four kinds. A line end right after three opening quotes does not count. -/
def string? (cs : Chars) : Option (String × Chars) :=
  let read := match cs with
    | '"' :: '"' :: '"' :: rest =>
      let rest := (lineEnd? rest).getD rest
      multiline? '"' true (rest.length + 1) [] rest
    | '\'' :: '\'' :: '\'' :: rest =>
      let rest := (lineEnd? rest).getD rest
      multiline? '\'' false (rest.length + 1) [] rest
    | '"' :: rest => basic? (rest.length + 1) [] rest
    | '\'' :: rest => literal? rest
    | _ => none
  read.map fun (s, rest) => (String.ofList s, rest)

def isBare (c : Char) : Bool := c.isAlphanum || c == '_' || c == '-'

def simpleKey? (cs : Chars) : Option (String × Chars) :=
  match cs with
  | '"' :: rest => (basic? (rest.length + 1) [] rest).map fun (s, rest) => (String.ofList s, rest)
  | '\'' :: rest => (literal? rest).map fun (s, rest) => (String.ofList s, rest)
  | cs =>
    let key := cs.takeWhile isBare
    if key.isEmpty then none else some (String.ofList key, cs.drop key.length)

def keysFrom? : Nat → Chars → Option (List String × Chars)
  | 0, _ => none
  | fuel + 1, cs => do
    let (key, rest) ← simpleKey? (skipBlanks cs)
    match skipBlanks rest with
    | '.' :: rest =>
      let (keys, rest) ← keysFrom? fuel rest
      some (key :: keys, rest)
    | rest => some ([key], rest)

/-- The largest number of keys that are nested in one another. -/
def maxDepth : Nat := 80

/-- A dotted key: its path and its last part. -/
def key? (cs : Chars) : Option ((List String × String) × Chars) := do
  let (keys, rest) ← keysFrom? maxDepth cs
  some ((keys.dropLast, keys.getLastD ""), rest)

end Telemetry.Toml
