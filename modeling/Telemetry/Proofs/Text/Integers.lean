import Telemetry.Proofs.Decimal.ReadBack

/-!
Integers in texts. A literal is a row of digits that a sign may precede, and stands for the number that the
digits write; the reader of 64-bit integers takes exactly the literals of numbers that it can hold, and gives
these numbers.
-/
namespace Telemetry

namespace Text
open Decimal

/-- The text writes a 64-bit integer: one digit or more, behind a sign or not. -/
inductive IsInt64Literal : List Char → Int64 → Prop
  | unsigned {digits : List Char} {n : Int64} (hne : digits ≠ []) (hdigits : ∀ c ∈ digits, isDigit c)
      (hn : n.toInt = digitsToNat digits) : IsInt64Literal digits n
  | plus {digits : List Char} {n : Int64} (hne : digits ≠ []) (hdigits : ∀ c ∈ digits, isDigit c)
      (hn : n.toInt = digitsToNat digits) : IsInt64Literal ('+' :: digits) n
  | minus {digits : List Char} {n : Int64} (hne : digits ≠ []) (hdigits : ∀ c ∈ digits, isDigit c)
      (hn : n.toInt = -digitsToNat digits) : IsInt64Literal ('-' :: digits) n

/-- The text writes a natural number: one digit or more, behind a plus sign or not. -/
inductive IsNatLiteral : List Char → Nat → Prop
  | unsigned {digits : List Char} (hne : digits ≠ []) (hdigits : ∀ c ∈ digits, isDigit c) :
      IsNatLiteral digits (digitsToNat digits)
  | plus {digits : List Char} (hne : digits ≠ []) (hdigits : ∀ c ∈ digits, isDigit c) :
      IsNatLiteral ('+' :: digits) (digitsToNat digits)

theorem int64?_eq_some_iff {n : Int} {c : Int64} : int64? n = some c ↔ c.toInt = n := by
  have hmin : Int64.minValue.toInt = -9223372036854775808 := rfl
  have hmax : Int64.maxValue.toInt = 9223372036854775807 := rfl
  unfold int64?
  constructor
  · intro h
    split at h
    · next hn =>
      cases h
      exact Int64.toInt_ofInt_of_le (by omega) (by omega)
    · simp at h
  · rintro rfl
    have hle := c.le_toInt
    have hlt := c.toInt_lt
    rw [if_pos ⟨by omega, by omega⟩, Int64.ofInt_toInt]

theorem int64?_eq_none_iff {n : Int} :
    int64? n = none ↔ n < Int64.minValue.toInt ∨ Int64.maxValue.toInt < n := by
  unfold int64?
  split
  · next h => exact iff_of_false (by simp) (by omega)
  · next h => exact iff_of_true rfl (by omega)

section Digits
variable {limit acc n : Nat} {excess : IntegerError} {c : Char} {cs : List Char}

theorem digitValue?_of_isDigit (h : isDigit c) : digitValue? c = some (c.toNat - 48) := by
  obtain ⟨d, hd, rfl⟩ := exists_digitChar h
  rw [digitValue?_digitChar hd, toNat_digitChar hd]

theorem digitValue?_eq_none (h : ¬ isDigit c) : digitValue? c = none := by
  simpa [digitValue?, isDigit] using h

/-- Digits are read as the number that they write, if it stays within the limit; as numbers only grow with
further digits, it does not matter that the limit is looked at after each of them. -/
theorem readDigits_eq_ok_iff (hacc : acc ≤ limit) : readDigits limit excess acc cs = .ok n ↔
    (∀ c ∈ cs, isDigit c) ∧ n = acc * 10 ^ cs.length + digitsToNat cs ∧ n ≤ limit := by
  induction cs generalizing acc with
  | nil =>
    have hnil : digitsToNat [] = 0 := rfl
    simp only [readDigits, Except.ok.injEq, hnil, List.length_nil, Nat.pow_zero]
    constructor
    · rintro rfl
      exact ⟨by simp, by omega, hacc⟩
    · rintro ⟨-, rfl, -⟩
      omega
  | cons c cs ih =>
    by_cases hc : isDigit c
    · have hvalue : acc * 10 ^ (c :: cs).length + digitsToNat (c :: cs) =
          (acc * 10 + (c.toNat - 48)) * 10 ^ cs.length + digitsToNat cs := by
        rw [← foldl_digits (c :: cs) acc, List.foldl_cons, foldl_digits]
      rw [readDigits, digitValue?_of_isDigit hc, hvalue]
      dsimp only
      split
      · next hexcess =>
        have hgrows : acc * 10 + (c.toNat - 48) ≤ (acc * 10 + (c.toNat - 48)) * 10 ^ cs.length :=
          Nat.le_mul_of_pos_right _ (Nat.pow_pos (by decide))
        refine iff_of_false (by simp) ?_
        rintro ⟨-, rfl, hle⟩
        omega
      · next hexcess =>
        rw [ih (Nat.le_of_not_lt hexcess)]
        simp [hc]
    · rw [readDigits, digitValue?_eq_none hc]
      exact iff_of_false (by simp) fun h => hc (h.1 c List.mem_cons_self)

theorem isNatLiteral_plus_iff :
    IsNatLiteral ('+' :: cs) n ↔ cs ≠ [] ∧ (∀ c ∈ cs, isDigit c) ∧ n = digitsToNat cs := by
  constructor
  · intro h
    cases h with
    | unsigned _ hdigits => exact absurd (hdigits '+' List.mem_cons_self) (by decide)
    | plus hne hdigits => exact ⟨hne, hdigits, rfl⟩
  · rintro ⟨hne, hdigits, rfl⟩
    exact .plus hne hdigits

theorem isNatLiteral_cons_iff (hplus : c ≠ '+') :
    IsNatLiteral (c :: cs) n ↔ (∀ d ∈ c :: cs, isDigit d) ∧ n = digitsToNat (c :: cs) := by
  constructor
  · intro h
    cases h with
    | unsigned _ hdigits => exact ⟨hdigits, rfl⟩
    | plus => exact absurd rfl hplus
  · rintro ⟨hdigits, rfl⟩
    exact .unsigned (List.cons_ne_nil _ _) hdigits

theorem readNat_eq_ok_iff : readNat limit cs = .ok n ↔ IsNatLiteral cs n ∧ n ≤ limit := by
  have hdigits : ∀ cs, readDigits limit .tooLarge 0 cs = .ok n ↔
      (∀ c ∈ cs, isDigit c) ∧ n = digitsToNat cs ∧ n ≤ limit := fun cs =>
    (readDigits_eq_ok_iff (Nat.zero_le limit)).trans (by simp)
  cases cs with
  | nil =>
    refine iff_of_false (by simp [readNat]) ?_
    rintro ⟨⟨hne, -⟩, -⟩
    exact hne rfl
  | cons c cs =>
    by_cases hplus : c = '+'
    · subst hplus
      rw [isNatLiteral_plus_iff]
      cases cs with
      | nil => simp [readNat]
      | cons d ds => exact (hdigits (d :: ds)).trans (by simp [and_assoc])
    · have hread : readNat limit (c :: cs) = readDigits limit .tooLarge 0 (c :: cs) := by
        unfold readNat
        split <;> simp_all
      rw [hread, hdigits, isNatLiteral_cons_iff hplus, and_assoc]

theorem isNatLiteral_natDigits (n : Nat) : IsNatLiteral (natDigits n) n := by
  have hliteral := IsNatLiteral.unsigned (natDigits_ne_nil n) fun c => isDigit_of_mem_natDigits
  rwa [digitsToNat_natDigits] at hliteral

end Digits

section Literals
variable {limit : Nat} {excess : IntegerError} {n : Int64} {c : Char} {cs : List Char}

theorem map_readDigits_eq_ok_iff {f : Int → Int64} :
    (readDigits limit excess 0 cs).map f = .ok n ↔
      (∀ c ∈ cs, isDigit c) ∧ digitsToNat cs ≤ limit ∧ f (digitsToNat cs) = n := by
  cases hread : readDigits limit excess 0 cs with
  | error e =>
    refine iff_of_false nofun ?_
    rintro ⟨hdigits, hle, -⟩
    have hok : readDigits limit excess 0 cs = .ok (digitsToNat cs) :=
      (readDigits_eq_ok_iff (Nat.zero_le _)).2 ⟨hdigits, by simp, hle⟩
    rw [hread] at hok
    cases hok
  | ok m =>
    obtain ⟨hdigits, hm, hle⟩ := (readDigits_eq_ok_iff (Nat.zero_le _)).1 hread
    obtain rfl : m = digitsToNat cs := by simpa using hm
    exact ⟨fun h => ⟨hdigits, hle, Except.ok.inj h⟩, fun h => congrArg Except.ok h.2.2⟩

theorem readDigits_signed_iff (signed : Int → Int)
    (hlimit : ∀ m : Nat, m ≤ limit ↔ Int64.minValue.toInt ≤ signed m ∧ signed m ≤ Int64.maxValue.toInt) :
    (readDigits limit excess 0 cs).map (fun m => Int64.ofInt (signed m)) = .ok n ↔
      (∀ c ∈ cs, isDigit c) ∧ n.toInt = signed (digitsToNat cs) := by
  rw [map_readDigits_eq_ok_iff, hlimit, ← int64?_eq_some_iff, int64?, Option.ite_none_right_eq_some,
    Option.some.injEq]

theorem isInt64Literal_signed_iff {sign : Char} {value : Int}
    (hsign : sign = '+' ∧ value = digitsToNat cs ∨ sign = '-' ∧ value = -digitsToNat cs) :
    IsInt64Literal (sign :: cs) n ↔ cs ≠ [] ∧ (∀ c ∈ cs, isDigit c) ∧ n.toInt = value := by
  rcases hsign with ⟨rfl, rfl⟩ | ⟨rfl, rfl⟩
  all_goals
    constructor
    · intro h
      cases h with
      | unsigned _ hdigits _ => exact absurd (hdigits _ List.mem_cons_self) (by decide)
      | _ hne hdigits hn => exact ⟨hne, hdigits, hn⟩
  · exact fun ⟨hne, hdigits, hn⟩ => .plus hne hdigits hn
  · exact fun ⟨hne, hdigits, hn⟩ => .minus hne hdigits hn

theorem isInt64Literal_cons_iff (hplus : c ≠ '+') (hminus : c ≠ '-') : IsInt64Literal (c :: cs) n ↔
    (∀ d ∈ c :: cs, isDigit d) ∧ n.toInt = digitsToNat (c :: cs) := by
  constructor
  · intro h
    cases h with
    | unsigned _ hdigits hn => exact ⟨hdigits, hn⟩
    | plus => exact absurd rfl hplus
    | minus => exact absurd rfl hminus
  · rintro ⟨hdigits, hn⟩
    exact .unsigned (List.cons_ne_nil _ _) hdigits hn

/-- The reader takes literals and nothing else. -/
theorem readInt64_eq_ok_iff : readInt64 cs = .ok n ↔ IsInt64Literal cs n := by
  have hmin : Int64.minValue.toInt = -9223372036854775808 := rfl
  have hmax : Int64.maxValue.toInt = 9223372036854775807 := rfl
  have hplain : ∀ m : Nat, m ≤ 2 ^ 63 - 1 ↔ Int64.minValue.toInt ≤ m ∧ m ≤ Int64.maxValue.toInt := by omega
  have hnegated : ∀ m : Nat, m ≤ 2 ^ 63 ↔ Int64.minValue.toInt ≤ -m ∧ -m ≤ Int64.maxValue.toInt := by omega
  cases cs with
  | nil =>
    refine iff_of_false (by simp [readInt64]) ?_
    rintro (⟨hne, -, -⟩ | _ | _)
    exact hne rfl
  | cons c cs =>
    by_cases hplus : c = '+'
    · subst hplus
      rw [isInt64Literal_signed_iff (.inl ⟨rfl, rfl⟩)]
      cases cs with
      | nil => simp [readInt64]
      | cons d ds => exact (readDigits_signed_iff (fun m => m) hplain).trans (by simp)
    by_cases hminus : c = '-'
    · subst hminus
      rw [isInt64Literal_signed_iff (.inr ⟨rfl, rfl⟩)]
      cases cs with
      | nil => simp [readInt64]
      | cons d ds => exact (readDigits_signed_iff (fun m => -m) hnegated).trans (by simp)
    have hread : readInt64 (c :: cs) =
        (readDigits (2 ^ 63 - 1) .tooLarge 0 (c :: cs)).map fun m => Int64.ofInt m := by
      unfold readInt64
      split <;> simp_all
    rw [hread, isInt64Literal_cons_iff hplus hminus]
    exact readDigits_signed_iff (fun m => m) hplain

theorem isInt64Literal_int64Digits (n : Int64) : IsInt64Literal (int64Digits n) n := by
  have hne : natDigits n.toInt.natAbs ≠ [] := natDigits_ne_nil _
  have hdigits : ∀ c ∈ natDigits n.toInt.natAbs, isDigit c := fun c => isDigit_of_mem_natDigits
  have hvalue := digitsToNat_natDigits n.toInt.natAbs
  unfold int64Digits intDigits
  split
  · next hneg => exact .minus hne hdigits (by omega)
  · next hneg => exact .unsigned hne hdigits (by omega)

end Literals

end Text
end Telemetry
