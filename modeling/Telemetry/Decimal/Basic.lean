import Telemetry.Binary64.Basic
import Telemetry.Text.Bytes
import Telemetry.Text.Integer

/-!
Decimal numbers with an exponent, and the binary number nearest to one.
-/
namespace Telemetry

/-- The magnitude `coefficient * 10 ^ exponent`. -/
structure Decimal where
  coefficient : Nat
  exponent : Int
deriving DecidableEq, Repr

namespace Decimal

/-- The binary number nearest to a signed decimal. Magnitudes of at least 10 ^ 401 are infinite and
those below 10 ^ -400 are zero without further computation. -/
def toBinary64 (negative : Bool) (d : Decimal) : Binary64 :=
  if d.coefficient = 0 then .zero negative
  else match d.exponent with
    | .ofNat e =>
      if 400 < e then .infinity negative else .ofRatio negative (d.coefficient * 10 ^ e) 1
    | .negSucc e =>
      if d.coefficient.log2 + 401 < e + 1 then .zero negative
      else .ofRatio negative d.coefficient (10 ^ (e + 1))

def normalize (d : Decimal) : Decimal :=
  if d.coefficient ≠ 0 ∧ d.coefficient % 10 = 0 then
    normalize ⟨d.coefficient / 10, d.exponent + 1⟩
  else d
termination_by d.coefficient

/-- The decimal that equals the magnitude with index `n`. -/
def exact (n : Nat) : Decimal := ⟨Binary64.scaled n * 5 ^ Binary64.unitExponent, -1074⟩

open Binary64 in
theorem toBinary64_exact (negative : Bool) {n : Nat} (h : n < infinityIndex) :
    (exact n).toBinary64 negative = ofIndex negative n := by
  have h5 : 0 < 5 ^ unitExponent := by decide +kernel
  by_cases hn : n = 0
  · subst hn
    simp [exact, toBinary64, scaled, zero]
  · have hs : 0 < scaled n := by
      have := scaled_lt_scaled (Nat.pos_of_ne_zero hn)
      omega
    have hc : scaled n * 5 ^ unitExponent ≠ 0 := Nat.ne_of_gt (Nat.mul_pos hs h5)
    have hlog : 2493 ≤ (scaled n * 5 ^ unitExponent).log2 := by
      have hle : 2 ^ 2493 ≤ scaled n * 5 ^ unitExponent :=
        Nat.le_trans (by decide +kernel) (Nat.le_mul_of_pos_left (5 ^ unitExponent) hs)
      generalize 2493 = k at hle ⊢
      exact (Nat.le_log2 hc).2 hle
    have hexp : (-1074 : Int) = .negSucc 1073 := rfl
    simp only [exact, toBinary64, if_neg hc, hexp]
    rw [if_neg (by omega)]
    have hden : 1073 + 1 = unitExponent := rfl
    have hten : scaled n * 5 ^ unitExponent * 2 ^ unitExponent = scaled n * 10 ^ unitExponent := by
      rw [show (10 : Nat) = 5 * 2 from rfl, Nat.mul_pow, Nat.mul_assoc]
    rw [hden]
    rw [ofRatio, hten, nearestIndex_mul_scaled (Nat.pow_pos (by decide))]

end Decimal
end Telemetry
