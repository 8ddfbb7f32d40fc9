import Telemetry.Text.Bytes

/-!
Integers in decimal. Writing uses the fewest digits and a minus sign; reading also takes a plus sign
and leading zeros. A reader says why it refuses: there was nothing, something was no digit, or the
value does not fit, whichever shows first from the left.
-/
namespace Telemetry.Text

def digitChar (n : Nat) : Char := Char.ofNat (48 + n)

def digitValue? (c : Char) : Option Nat :=
  if '0' ≤ c ∧ c ≤ '9' then some (c.toNat - 48) else none

/-- The decimal digits of a natural number, without leading zeros. -/
def natDigits (n : Nat) : List Char :=
  if n < 10 then [digitChar n] else natDigits (n / 10) ++ [digitChar (n % 10)]
termination_by n

def intDigits (n : Int) : List Char :=
  if n < 0 then '-' :: natDigits n.natAbs else natDigits n.natAbs

/-- Why a text is no integer of the wanted range. -/
inductive IntegerError where
  | empty
  | invalidDigit
  | tooLarge
  | tooSmall
deriving DecidableEq, Repr

def IntegerError.message : IntegerError → String
  | .empty => "cannot parse integer from empty string"
  | .invalidDigit => "invalid digit found in string"
  | .tooLarge => "number too large to fit in target type"
  | .tooSmall => "number too small to fit in target type"

/-- Reads digits from the left onto `acc`; the first digit that takes the value above `limit` ends
the reading with `excess`. -/
def readDigits (limit : Nat) (excess : IntegerError) (acc : Nat) : List Char → Except IntegerError Nat
  | [] => .ok acc
  | c :: cs =>
    match digitValue? c with
    | none => .error .invalidDigit
    | some d => if limit < acc * 10 + d then .error excess else readDigits limit excess (acc * 10 + d) cs

/-- A natural number up to `limit`, with an optional plus sign. -/
def readNat (limit : Nat) : List Char → Except IntegerError Nat
  | [] => .error .empty
  | ['+'] => .error .invalidDigit
  | '+' :: cs => readDigits limit .tooLarge 0 cs
  | cs => readDigits limit .tooLarge 0 cs

/-- A 64-bit signed integer, with an optional sign. -/
def readInt64 : List Char → Except IntegerError Int64
  | [] => .error .empty
  | ['+'] => .error .invalidDigit
  | ['-'] => .error .invalidDigit
  | '+' :: cs => (readDigits (2 ^ 63 - 1) .tooLarge 0 cs).map fun n => Int64.ofInt n
  | '-' :: cs => (readDigits (2 ^ 63) .tooSmall 0 cs).map fun n => Int64.ofInt (-n)
  | cs => (readDigits (2 ^ 63 - 1) .tooLarge 0 cs).map fun n => Int64.ofInt n

def int64? (n : Int) : Option Int64 :=
  if Int64.minValue.toInt ≤ n ∧ n ≤ Int64.maxValue.toInt then some (Int64.ofInt n) else none

def maxWord : Nat := 2 ^ 64 - 1

def int64Digits (n : Int64) : List Char := intDigits n.toInt

def readBool? (s : String) : Option Bool :=
  if s = "true" then some true else if s = "false" then some false else none

theorem digitValue?_digitChar {d : Nat} (h : d < 10) : digitValue? (digitChar d) = some d := by
  have : ∀ d < 10, digitValue? (digitChar d) = some d := by decide
  exact this d h

theorem natDigits_ne_nil (n : Nat) : natDigits n ≠ [] := by
  rw [natDigits]
  split <;> simp

end Telemetry.Text
