import Telemetry.Decimal.Basic
import Telemetry.Text.Bytes

/-!
The shortest decimal that reads back as a given binary number: of all decimals that do, one with the
fewest digits, and of those the nearest. On the grid of decimals with `k` digits only the two
neighbours of the number can qualify, so the search tests those, for `k` from 1 to 17.
-/
namespace Telemetry.Decimal

/-- Which of two equally near neighbours is preferred. -/
inductive Tie where
  | up
  | even
deriving DecidableEq, Repr

/-- The exponent of the leading decimal digit of `scaled n` units. -/
def leadingExponent (n : Nat) : Int :=
  ((Text.natDigits (Binary64.scaled n * 10 ^ 400 / 2 ^ Binary64.unitExponent)).length : Int) - 401

/-- The number `scaled n` units as a fraction of `10 ^ p`. -/
def gridRatio (n : Nat) (p : Int) : Nat × Nat :=
  match p with
  | .ofNat e => (Binary64.scaled n, 2 ^ Binary64.unitExponent * 10 ^ e)
  | .negSucc e => (Binary64.scaled n * 10 ^ (e + 1), 2 ^ Binary64.unitExponent)

def neighbours (tie : Tie) (num den : Nat) : List Nat :=
  let q := num / den
  let r := 2 * (num % den)
  let low := if r = den then (match tie with | .up => false | .even => q % 2 == 0) else decide (r < den)
  if low then [q, q + 1] else [q + 1, q]

/-- The decimals with `k` digits next to the magnitude with index `n`, the nearer first. -/
def candidates (tie : Tie) (n k : Nat) : List Decimal :=
  let p := leadingExponent n - (k : Int) + 1
  let (num, den) := gridRatio n p
  (neighbours tie num den).map fun c => (Decimal.mk c p).normalize

def readsBack (n : Nat) (d : Decimal) : Bool :=
  decide (d.toBinary64 false = Binary64.ofIndex false n)

/-- The shortest decimal of the magnitude with index `n`. -/
def shortest (tie : Tie) (n : Nat) : Decimal :=
  if n = 0 then ⟨0, 0⟩
  else ((List.range 17).findSome? fun k => (candidates tie n (k + 1)).find? (readsBack n)).getD (exact n)

theorem toBinary64_shortest_false (tie : Tie) {n : Nat} (h : n < Binary64.infinityIndex) :
    (shortest tie n).toBinary64 false = Binary64.ofIndex false n := by
  unfold shortest
  split
  · next hn => subst hn; rfl
  · cases hs : (List.range 17).findSome? fun k => (candidates tie n (k + 1)).find? (readsBack n) with
    | none => simpa using toBinary64_exact false h
    | some d =>
      obtain ⟨k, -, hk⟩ := List.exists_of_findSome?_eq_some hs
      have := List.find?_some hk
      simpa [readsBack] using this

theorem toBinary64_eq_of_false {d : Decimal} {n : Nat} (negative : Bool)
    (h : d.toBinary64 false = Binary64.ofIndex false n) :
    d.toBinary64 negative = Binary64.ofIndex negative n := by
  cases negative with
  | false => exact h
  | true =>
    have key : ∀ d : Decimal, (d.toBinary64 true).index = (d.toBinary64 false).index ∧
        (d.toBinary64 true).negative = true := by
      intro d
      unfold toBinary64
      split
      · exact ⟨rfl, rfl⟩
      · split <;> split <;> exact ⟨rfl, rfl⟩
    apply Binary64.ext
    · exact (key d).2
    · rw [(key d).1, h]; rfl

/-- The shortest decimal reads back as the number it was made from. -/
theorem toBinary64_shortest (tie : Tie) {x : Binary64} (h : x.isFinite) :
    (shortest tie x.index).toBinary64 x.negative = x := by
  have hx : x.index < Binary64.infinityIndex := by simpa [Binary64.isFinite] using h
  rw [toBinary64_eq_of_false _ (toBinary64_shortest_false tie hx)]
  apply Binary64.ext
  · rfl
  · simp [Binary64.ofIndex, Nat.min_eq_left (Nat.le_of_lt hx)]

end Telemetry.Decimal
