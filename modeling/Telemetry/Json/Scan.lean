import Telemetry.Text.Bytes

/-!
Finding where a JSON value ends. A machine with a stack of open brackets reads one byte at a time
and refuses at the first byte that no value can have there. It checks the form of strings and
numbers only: whether a string is good UTF-8 and a number in range is for those who use them.
`takeValue?` cuts the first value off a text; `elements?` and `members?` cut an array or an object
into the texts of its parts.
-/
namespace Telemetry.Json

/-- How far a number has been read. -/
inductive NumberPart where
  | minus
  | zero
  | whole
  | point
  | fraction
  | mark
  | sign
  | exponent
deriving DecidableEq, Repr

/-- The part of a number after one more byte. -/
def NumberPart.step? (part : NumberPart) (b : UInt8) : Option NumberPart :=
  let mark := b == 101 || b == 69
  match part with
  | minus => if b == 48 then some zero else if Ascii.isDigit b then some whole else none
  | zero => if b == Ascii.point then some point else if mark then some .mark else none
  | whole =>
    if Ascii.isDigit b then some whole else if b == Ascii.point then some point
    else if mark then some .mark else none
  | point => if Ascii.isDigit b then some fraction else none
  | fraction => if Ascii.isDigit b then some fraction else if mark then some .mark else none
  | .mark =>
    if Ascii.isDigit b then some exponent
    else if b == Ascii.plus || b == Ascii.minus then some sign else none
  | sign => if Ascii.isDigit b then some exponent else none
  | exponent => if Ascii.isDigit b then some exponent else none

def NumberPart.isComplete : NumberPart → Bool
  | zero | whole | fraction | exponent => true
  | _ => false

inductive Mode where
  | value
  | firstItem
  | firstKey
  | key
  | colon
  | next
  | string (isKey : Bool)
  | escape (isKey : Bool)
  | hex (isKey : Bool) (left : Nat)
  | literal (rest : Bytes)
  | number (part : NumberPart)
deriving DecidableEq, Repr

inductive Bracket where
  | array
  | object
deriving DecidableEq, Repr

/-- The mode and the open brackets, innermost first. -/
structure State where
  mode : Mode
  brackets : List Bracket
deriving DecidableEq, Repr

namespace State

/-- The first byte of a value. -/
def startValue? (s : State) (b : UInt8) : Option State :=
  if b == Ascii.quote then some { s with mode := .string false }
  else if b == Ascii.braceOpen then some ⟨.firstKey, .object :: s.brackets⟩
  else if b == Ascii.bracketOpen then some ⟨.firstItem, .array :: s.brackets⟩
  else if b == 116 then some { s with mode := .literal [114, 117, 101] }
  else if b == 102 then some { s with mode := .literal [97, 108, 115, 101] }
  else if b == 110 then some { s with mode := .literal [117, 108, 108] }
  else if b == Ascii.minus then some { s with mode := .number .minus }
  else if b == Ascii.zero then some { s with mode := .number .zero }
  else if Ascii.isDigit b then some { s with mode := .number .whole }
  else none

def afterValue? (s : State) (b : UInt8) : Option State :=
  if Ascii.isBlank b then some { s with mode := .next }
  else match s.brackets with
  | .array :: outer =>
    if b == Ascii.comma then some { s with mode := .value }
    else if b == Ascii.bracketClose then some ⟨.next, outer⟩ else none
  | .object :: outer =>
    if b == Ascii.comma then some { s with mode := .key }
    else if b == Ascii.braceClose then some ⟨.next, outer⟩ else none
  | [] => none

def afterBackslash? (s : State) (isKey : Bool) (b : UInt8) : Option State :=
  if b == 117 then some { s with mode := .hex isKey 3 }
  else if b == Ascii.quote || b == Ascii.backslash || b == Ascii.slash || b == 98 || b == 102 ||
      b == 110 || b == 114 || b == 116 then some { s with mode := .string isKey }
  else none

/-- One byte. -/
def step? (s : State) (b : UInt8) : Option State :=
  match s.mode with
  | .value => if Ascii.isBlank b then some s else s.startValue? b
  | .firstItem =>
    if Ascii.isBlank b then some s
    else if b == Ascii.bracketClose then some ⟨.next, s.brackets.drop 1⟩ else s.startValue? b
  | .firstKey =>
    if Ascii.isBlank b then some s
    else if b == Ascii.quote then some { s with mode := .string true }
    else if b == Ascii.braceClose then some ⟨.next, s.brackets.drop 1⟩ else none
  | .key =>
    if Ascii.isBlank b then some s
    else if b == Ascii.quote then some { s with mode := .string true } else none
  | .colon =>
    if Ascii.isBlank b then some s
    else if b == Ascii.colon then some { s with mode := .value } else none
  | .next => s.afterValue? b
  | .string isKey =>
    if b == Ascii.quote then some { s with mode := if isKey then .colon else .next }
    else if b == Ascii.backslash then some { s with mode := .escape isKey }
    else if b < 32 then none else some s
  | .escape isKey => s.afterBackslash? isKey b
  | .hex isKey left =>
    match Bytes.hexValue? b, left with
    | some _, n + 1 => some { s with mode := .hex isKey n }
    | some _, 0 => some { s with mode := .string isKey }
    | none, _ => none
  | .literal rest =>
    match rest with
    | [c] => if b == c then some { s with mode := .next } else none
    | c :: cs => if b == c then some { s with mode := .literal cs } else none
    | [] => none
  | .number part =>
    match part.step? b with
    | some part' => some { s with mode := .number part' }
    | none => if part.isComplete then s.afterValue? b else none

def isClosed (s : State) : Bool := s.brackets.isEmpty && s.mode == .next

/-- A whole value has been read if no byte follows that belongs to it. -/
def endsBefore (s : State) (next : Option UInt8) : Bool :=
  s.brackets.isEmpty && match s.mode with
    | .number part => part.isComplete && (next.bind part.step?).isNone
    | _ => false

end State

/-- Runs the machine until the value ends; gives the value's text and what follows it. -/
def run (s : State) (seen : Bytes) : Bytes → Option (Bytes × Bytes)
  | [] => if s.isClosed || s.endsBefore none then some (seen.reverse, []) else none
  | b :: bs =>
    if s.isClosed || s.endsBefore (some b) then some (seen.reverse, b :: bs)
    else match s.step? b with
      | some s' => run s' (b :: seen) bs
      | none => none

def skipBlanks (bs : Bytes) : Bytes := bs.dropWhile Ascii.isBlank

/-- The text of the first value and the rest. -/
def takeValue? (bs : Bytes) : Option (Bytes × Bytes) := run ⟨.value, []⟩ [] (skipBlanks bs)

def document? (bs : Bytes) : Option Bytes :=
  match takeValue? bs with
  | some (v, rest) => if (skipBlanks rest).isEmpty then some v else none
  | none => none

def takeMember? (bs : Bytes) : Option ((Bytes × Bytes) × Bytes) := do
  let (k, rest) ← takeValue? bs
  match skipBlanks rest with
  | Ascii.colon :: rest =>
    let (v, rest) ← takeValue? rest
    some ((k, v), rest)
  | _ => none

/-- Items with commas between them up to the closing byte, at most `fuel` of them. -/
def takeItems? {α : Type} (take : Bytes → Option (α × Bytes)) (close : UInt8) :
    Nat → List α → Bytes → Option (List α × Bytes)
  | 0, _, _ => none
  | fuel + 1, seen, bs => do
    let (a, rest) ← take bs
    match skipBlanks rest with
    | b :: rest =>
      if b == Ascii.comma then takeItems? take close fuel (a :: seen) rest
      else if b == close then some ((a :: seen).reverse, rest) else none
    | [] => none

/-- The items between an opening and a closing byte that is the last of the text. -/
def items? {α : Type} (take : Bytes → Option (α × Bytes)) (opening close : UInt8) (bs : Bytes) :
    Option (List α) :=
  match bs with
  | [] => none
  | b :: rest =>
    if b != opening then none
    else match skipBlanks rest with
      | [] => none
      | c :: cs =>
        if c == close then (if cs.isEmpty then some [] else none)
        else match takeItems? take close rest.length [] rest with
          | some (as, []) => some as
          | _ => none

def elements? (bs : Bytes) : Option (List Bytes) :=
  items? takeValue? Ascii.bracketOpen Ascii.bracketClose bs

def members? (bs : Bytes) : Option (List (Bytes × Bytes)) :=
  items? takeMember? Ascii.braceOpen Ascii.braceClose bs

end Telemetry.Json
