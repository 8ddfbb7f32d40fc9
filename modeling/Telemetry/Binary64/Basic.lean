import Telemetry.Text.Bytes

/-!
The interchange format of 64 bits with 53 bits of precision. A number is a sign and an index: the
magnitudes in increasing order are numbered from 0, so that neighbours have consecutive indices, the
infinities have index `infinityIndex` and everything above is not a number. The magnitude with index
`n`, in units of 2 ^ -1074, is the natural number `scaled n`. What is computed is the number nearest to the
exact result, with ties to the even index.
-/
namespace Telemetry

structure Binary64 where
  negative : Bool
  index : Nat
  index_lt : index < 2 ^ 63
deriving DecidableEq

namespace Binary64

/-- The index of the infinities: one more than that of the largest finite magnitude. -/
def infinityIndex : Nat := 2047 * 2 ^ 52

/-- The unit of `scaled` is 2 ^ -1074. -/
def unitExponent : Nat := 1074

/-- The magnitude with the given index, in units of 2 ^ -1074. -/
def scaled (n : Nat) : Nat :=
  if n < 2 ^ 53 then n else (2 ^ 52 + n % 2 ^ 52) * 2 ^ (n / 2 ^ 52 - 1)

/-- The largest index whose magnitude is at most `t` units. -/
def floorIndex (t : Nat) : Nat :=
  if t < 2 ^ 53 then t else (t.log2 - 52) * 2 ^ 52 + t / 2 ^ (t.log2 - 52)

/-- The index of the magnitude nearest to `num / den` units; of two equally near ones the one with
the even index is taken. -/
def nearestIndex (num den : Nat) : Nat :=
  let low := floorIndex (num / den)
  let sum := (scaled low + scaled (low + 1)) * den
  if 2 * num < sum then low
  else if sum < 2 * num then low + 1
  else if low % 2 = 0 then low else low + 1

/-- The number with a sign and an index; indices above that of infinity become it. -/
def ofIndex (negative : Bool) (n : Nat) : Binary64 :=
  ⟨negative, min n infinityIndex, by unfold infinityIndex; omega⟩

def ofRatio (negative : Bool) (num den : Nat) : Binary64 :=
  ofIndex negative (nearestIndex (num * 2 ^ unitExponent) den)

def zero (negative : Bool) : Binary64 := ofIndex negative 0

def infinity (negative : Bool) : Binary64 := ofIndex negative infinityIndex

def nan : Binary64 := ⟨false, infinityIndex + 2 ^ 51, by decide⟩

def isFinite (x : Binary64) : Bool := x.index < infinityIndex

def isNaN (x : Binary64) : Bool := infinityIndex < x.index

def isZero (x : Binary64) : Bool := x.index = 0

/-- The same number with the sign of zero dropped. -/
def dropZeroSign (x : Binary64) : Binary64 := if x.isZero then zero false else x

/-- Equal as numbers: the two zeros are one number, and not-a-number differs from everything. -/
def numEq (x y : Binary64) : Bool :=
  !x.isNaN && !y.isNaN && decide (x.dropZeroSign = y.dropZeroSign)

def toBits (x : Binary64) : Nat := (if x.negative then 2 ^ 63 else 0) + x.index

def ofBits (n : Nat) : Binary64 := ⟨2 ^ 63 ≤ n % 2 ^ 64, n % 2 ^ 63, Nat.mod_lt _ (by decide)⟩

@[ext] theorem ext {x y : Binary64} (hn : x.negative = y.negative) (hi : x.index = y.index) :
    x = y := by
  cases x; cases y; simp_all

theorem toBits_lt (x : Binary64) : x.toBits < 2 ^ 64 := by
  have := x.index_lt
  unfold toBits
  split <;> omega

@[simp] theorem ofBits_toBits (x : Binary64) : ofBits x.toBits = x := by
  have hx := x.index_lt
  have h64 : x.toBits % 2 ^ 64 = x.toBits := Nat.mod_eq_of_lt x.toBits_lt
  apply Binary64.ext
  · simp only [ofBits, h64]
    cases hn : x.negative <;> simp [toBits, hn]
    omega
  · cases hn : x.negative <;> simp [ofBits, toBits, hn] <;> omega

@[simp] theorem isFinite_zero (b : Bool) : (zero b).isFinite = true := by
  cases b <;> decide

/-! ### The indices number the magnitudes -/

theorem scaled_of_lt {n : Nat} (h : n < 2 ^ 53) : scaled n = n := if_pos h

theorem scaled_shifted {k m : Nat} (hm : 2 ^ 52 ≤ m) (hm' : m < 2 ^ 53) :
    scaled (k * 2 ^ 52 + m) = m * 2 ^ k := by
  have hmod : (k * 2 ^ 52 + m) % 2 ^ 52 = m - 2 ^ 52 := by omega
  have hdiv : (k * 2 ^ 52 + m) / 2 ^ 52 = k + 1 := by omega
  unfold scaled
  split
  · next h =>
    have hk : k = 0 := by omega
    subst hk; simp
  · rw [hmod, hdiv]
    have : 2 ^ 52 + (m - 2 ^ 52) = m := by omega
    rw [this, Nat.add_sub_cancel]

theorem exists_shifted {n : Nat} (h : 2 ^ 52 ≤ n) :
    ∃ k m, 2 ^ 52 ≤ m ∧ m < 2 ^ 53 ∧ n = k * 2 ^ 52 + m :=
  ⟨n / 2 ^ 52 - 1, 2 ^ 52 + n % 2 ^ 52, by omega, by omega, by omega⟩

theorem scaled_lt_scaled_succ (n : Nat) : scaled n < scaled (n + 1) := by
  by_cases hn : n + 1 < 2 ^ 53
  · rw [scaled_of_lt hn, scaled_of_lt (by omega)]; omega
  · obtain ⟨k, m, hm, hm', rfl⟩ := exists_shifted (n := n) (by omega)
    rw [scaled_shifted hm hm']
    by_cases hlast : m + 1 < 2 ^ 53
    · rw [show k * 2 ^ 52 + m + 1 = k * 2 ^ 52 + (m + 1) by omega, scaled_shifted (by omega) hlast]
      exact Nat.mul_lt_mul_of_pos_right (by omega) (Nat.two_pow_pos k)
    · have hm53 : m = 2 ^ 53 - 1 := by omega
      rw [show k * 2 ^ 52 + m + 1 = (k + 1) * 2 ^ 52 + 2 ^ 52 by omega,
        scaled_shifted (Nat.le_refl _) (by decide)]
      have h53 : 2 ^ 52 * 2 ^ (k + 1) = 2 ^ 53 * 2 ^ k := by rw [Nat.pow_succ]; omega
      rw [h53]
      exact Nat.mul_lt_mul_of_pos_right (by omega) (Nat.two_pow_pos k)

theorem scaled_lt_scaled {m n : Nat} (h : m < n) : scaled m < scaled n := by
  induction n with
  | zero => omega
  | succ n ih =>
    rcases Nat.lt_succ_iff_lt_or_eq.1 h with h | rfl
    · exact Nat.lt_trans (ih h) (scaled_lt_scaled_succ n)
    · exact scaled_lt_scaled_succ m

theorem floorIndex_scaled (n : Nat) : floorIndex (scaled n) = n := by
  by_cases hn : n < 2 ^ 53
  · rw [scaled_of_lt hn, floorIndex, if_pos hn]
  · obtain ⟨k, m, hm, hm', rfl⟩ := exists_shifted (n := n) (by omega)
    rw [scaled_shifted hm hm']
    have hpos : 0 < 2 ^ k := Nat.two_pow_pos k
    have hlog : (m * 2 ^ k).log2 = 52 + k := by
      have hne : m * 2 ^ k ≠ 0 := Nat.ne_of_gt (Nat.mul_pos (by omega) hpos)
      apply (Nat.log2_eq_iff hne).2
      constructor
      · rw [Nat.pow_add]; exact Nat.mul_le_mul_right _ hm
      · rw [show 52 + k + 1 = 53 + k by omega, Nat.pow_add]
        exact Nat.mul_lt_mul_of_pos_right hm' hpos
    have hbig : ¬ m * 2 ^ k < 2 ^ 53 := by
      have hk : 0 < k := by
        rcases Nat.eq_zero_or_pos k with rfl | h
        · omega
        · exact h
      have h2 : 2 ≤ 2 ^ k := by
        calc 2 = 2 ^ 1 := rfl
          _ ≤ 2 ^ k := Nat.pow_le_pow_right (by decide) hk
      have := Nat.mul_le_mul hm h2
      omega
    rw [floorIndex, if_neg hbig, hlog, Nat.add_sub_cancel_left, Nat.mul_div_cancel _ hpos]

theorem nearestIndex_mul_scaled {den : Nat} (h : 0 < den) (n : Nat) :
    nearestIndex (scaled n * den) den = n := by
  have hlt := Nat.mul_lt_mul_of_pos_right (scaled_lt_scaled_succ n) h
  simp only [nearestIndex, Nat.mul_div_cancel _ h, floorIndex_scaled]
  rw [if_pos]
  rw [Nat.add_mul]
  omega

def ofInt (n : Int) : Binary64 := ofRatio (n < 0) n.natAbs 1

def ofUnitFraction (k : Fin (2 ^ 53)) : Binary64 := ofRatio false k.val (2 ^ 53)

/-- The product of the magnitudes of two finite numbers. -/
def mulMagnitude (x y : Binary64) : Binary64 :=
  ofRatio false (scaled x.index * scaled y.index) (2 ^ unitExponent * 2 ^ unitExponent)

/-- The quotient of the magnitudes of two finite numbers, the second not zero. -/
def divMagnitude (x y : Binary64) : Binary64 := ofRatio false (scaled x.index) (scaled y.index)

def inUnitInterval (x : Binary64) : Bool := !x.negative && decide (x.index < 1023 * 2 ^ 52)

end Binary64
end Telemetry
