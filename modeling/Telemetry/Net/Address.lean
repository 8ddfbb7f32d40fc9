import Telemetry.Text.Bytes
import Telemetry.Text.Integer

/-!
Internet addresses of both families and their texts. Four numbers are written in decimal without
leading zeros; eight groups are written in hexadecimal, the longest run of zero groups as `::`. A
reader takes exactly the texts that stand for an address, in any of the ways to write it.
-/
namespace Telemetry.Net

inductive Family where
  | four
  | six
deriving DecidableEq, Repr

def Family.width : Family → Nat
  | four => 32
  | six => 128

/-- An address as a number. -/
structure Address where
  family : Family
  value : Nat
  value_lt : value < 2 ^ family.width
deriving DecidableEq, Repr

namespace Address

/-- The address whose low bits are those of a number. -/
def ofNat (family : Family) (n : Nat) : Address :=
  ⟨family, n % 2 ^ family.width, Nat.mod_lt _ (Nat.two_pow_pos _)⟩

def firstBits (a : Address) (p : Nat) : Nat := a.value / 2 ^ (a.family.width - p)

def ofDigits (base : Nat) (ds : List Nat) : Nat := ds.foldl (fun acc d => acc * base + d) 0

/-- One to three decimal digits, no leading zero, up to 255. -/
def octet? (cs : List Char) : Option (Nat × List Char) :=
  let ds := cs.takeWhile fun c => (Text.digitValue? c).isSome
  let n := ofDigits 10 (ds.filterMap Text.digitValue?)
  if ds = [] ∨ 3 < ds.length ∨ (1 < ds.length ∧ ds.head? = some '0') ∨ 255 < n then none
  else some (n, cs.drop ds.length)

def after? (c : Char) : List Char → Option (List Char)
  | [] => none
  | d :: rest => if c = d then some rest else none

def quad? (cs : List Char) : Option (Nat × List Char) := do
  let (a, cs) ← octet? cs
  let (b, cs) ← (after? '.' cs).bind octet?
  let (c, cs) ← (after? '.' cs).bind octet?
  let (d, cs) ← (after? '.' cs).bind octet?
  some (ofDigits 256 [a, b, c, d], cs)

def hexDigit? (c : Char) : Option Nat := if c.toNat < 128 then Bytes.hexValue? c.toUInt8 else none

/-- One to four hexadecimal digits. -/
def group? (cs : List Char) : Option (Nat × List Char) :=
  let ds := cs.takeWhile fun c => (hexDigit? c).isSome
  if ds = [] ∨ 4 < ds.length then none
  else some (ofDigits 16 (ds.filterMap hexDigit?), cs.drop ds.length)

/-- Groups with colons between them, as many as there are up to a limit. The last two may be written
as four octets. Gives whether they were, and what follows. -/
def groups : Nat → Bool → List Char → List Nat × Bool × List Char
  | 0, _, cs => ([], false, cs)
  | n + 1, isFirst, cs =>
    match if isFirst then some cs else after? ':' cs with
    | none => ([], false, cs)
    | some rest =>
      match if 0 < n then quad? rest else none with
      | some (q, rest) => ([q / 65536, q % 65536], true, rest)
      | none =>
        match group? rest with
        | none => ([], false, cs)
        | some (g, rest) =>
          let (gs, isQuad, rest) := groups n false rest
          (g :: gs, isQuad, rest)

/-- Eight groups, or fewer with `::` for at least one zero group. -/
def octuple? (cs : List Char) : Option (Nat × List Char) :=
  let (head, isQuad, rest) := groups 8 true cs
  if head.length = 8 then some (ofDigits 65536 head, rest)
  else if isQuad then none
  else do
    let rest ← (after? ':' rest).bind (after? ':')
    let (tail, _, rest) := groups (7 - head.length) true rest
    let zeros := List.replicate (8 - head.length - tail.length) 0
    some (ofDigits 65536 (head ++ zeros ++ tail), rest)

def ofText? (cs : List Char) : Option Address :=
  match quad? cs with
  | some (n, []) => some (ofNat .four n)
  | some _ => none
  | none =>
    match octuple? cs with
    | some (n, []) => some (ofNat .six n)
    | _ => none

/-- The digits of a number, `count` of them, most significant first. -/
def toDigits (base : Nat) : Nat → Nat → List Nat
  | 0, _ => []
  | count + 1, n => toDigits base count (n / base) ++ [n % base]

def quadText (n : Nat) : List Char :=
  ['.'].intercalate ((toDigits 256 4 n).map Text.natDigits)

def groupsText (gs : List Nat) : List Char := [':'].intercalate (gs.map (Nat.toDigits 16))

/-- The start and the length of the first of the longest runs of zeros, from the index `i` on; the
run before `i` and the longest one so far are given. -/
def longestZeros (i : Nat) (current longest : Nat × Nat) : List Nat → Nat × Nat
  | [] => longest
  | g :: gs =>
    if g = 0 then
      let current := if current.2 = 0 then (i, 1) else (current.1, current.2 + 1)
      longestZeros (i + 1) current (if longest.2 < current.2 then current else longest) gs
    else longestZeros (i + 1) (0, 0) longest gs

/-- The text of an address of eight groups. One that embeds four octets shows them. -/
def octupleText (n : Nat) : List Char :=
  if n / 2 ^ 32 = 0xffff then "::ffff:".toList ++ quadText (n % 2 ^ 32)
  else
    let gs := toDigits 65536 8 n
    let (start, length) := longestZeros 0 (0, 0) (0, 0) gs
    if 1 < length then groupsText (gs.take start) ++ ':' :: ':' :: groupsText (gs.drop (start + length))
    else groupsText gs

def text (a : Address) : List Char :=
  match a.family with
  | .four => quadText a.value
  | .six => octupleText a.value

end Address
end Telemetry.Net
