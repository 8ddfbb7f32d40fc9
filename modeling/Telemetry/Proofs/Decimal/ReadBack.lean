import Mathlib.Data.List.TakeWhile
import Telemetry.Proofs.Metric.WellFormed

/-!
The plain text of a finite number is read back as the number, bit for bit. The text has the digits of
the shortest decimal, so all that is to be shown is that a literal with these digits and a point among
them or zeros behind them is read as this decimal.
-/
namespace Telemetry
namespace Decimal
open Text

theorem isDigit_digitChar {d : Nat} (h : d < 10) : isDigit (digitChar d) = true := by
  have hall : ∀ d < 10, isDigit (digitChar d) = true := by decide
  exact hall d h

theorem toNat_digitChar {d : Nat} (h : d < 10) : (digitChar d).toNat - 48 = d := by
  have hall : ∀ d < 10, (digitChar d).toNat - 48 = d := by decide
  exact hall d h

theorem isDigit_of_mem_natDigits {n : Nat} {c : Char} (h : c ∈ natDigits n) : isDigit c = true := by
  induction n using Nat.strongRecOn with
  | _ n ih =>
    rw [natDigits] at h
    split at h
    · next hn =>
      rw [List.mem_singleton] at h
      exact h ▸ isDigit_digitChar hn
    · next hn =>
      rcases List.mem_append.1 h with h | h
      · exact ih (n / 10) (by omega) h
      · rw [List.mem_singleton] at h
        exact h ▸ isDigit_digitChar (Nat.mod_lt n (by decide))

theorem exists_digitChar {c : Char} (h : isDigit c) : ∃ d, d < 10 ∧ digitChar d = c := by
  simp only [isDigit, Bool.and_eq_true, decide_eq_true_eq, Char.le_def, UInt32.le_iff_toNat_le] at h
  have hlow : 48 ≤ c.toNat := h.1
  have hhigh : c.toNat ≤ 57 := h.2
  refine ⟨c.toNat - 48, by omega, ?_⟩
  rw [digitChar, Nat.add_sub_cancel' hlow, Char.ofNat_toNat]

theorem toLower_of_isDigit {c : Char} (h : isDigit c) : c.toLower = c := by
  obtain ⟨d, hd, rfl⟩ := exists_digitChar h
  have hall : ∀ d < 10, (digitChar d).toLower = digitChar d := by decide
  exact hall d hd

theorem foldl_digits (cs : List Char) (n : Nat) :
    cs.foldl (fun acc c => acc * 10 + (c.toNat - 48)) n = n * 10 ^ cs.length + digitsToNat cs := by
  induction cs generalizing n with
  | nil => simp [digitsToNat]
  | cons c cs ih =>
    have hdigits : digitsToNat (c :: cs) = _ := ih (0 * 10 + (c.toNat - 48))
    rw [List.foldl_cons, ih, hdigits, List.length_cons, Nat.pow_succ]
    simp only [Nat.add_mul, Nat.zero_mul, Nat.zero_add, Nat.add_assoc, Nat.mul_assoc,
      Nat.mul_comm 10]

theorem digitsToNat_append (as bs : List Char) :
    digitsToNat (as ++ bs) = digitsToNat as * 10 ^ bs.length + digitsToNat bs := by
  rw [digitsToNat, List.foldl_append]
  exact foldl_digits bs _

theorem digitsToNat_natDigits (n : Nat) : digitsToNat (natDigits n) = n := by
  induction n using Nat.strongRecOn with
  | _ n ih =>
    rw [natDigits]
    split
    · next hn => simp [digitsToNat, toNat_digitChar hn]
    · next hn =>
      rw [digitsToNat_append, ih (n / 10) (by omega)]
      have hlast := toNat_digitChar (Nat.mod_lt n (by decide : 0 < 10))
      simp only [digitsToNat, List.foldl_cons, List.foldl_nil, hlast, List.length_singleton]
      omega

theorem natDigits_injective : Function.Injective natDigits :=
  have hleft : Function.LeftInverse digitsToNat natDigits := digitsToNat_natDigits
  hleft.injective

theorem digitsToNat_zeros (k : Nat) : digitsToNat (List.replicate k '0') = 0 := by
  induction k with
  | zero => rfl
  | succ k ih =>
    rw [List.replicate_succ', digitsToNat_append, ih]
    rfl

theorem isDigit_of_mem_zeros {k : Nat} {c : Char} (h : c ∈ List.replicate k '0') :
    isDigit c = true := by
  rw [List.eq_of_mem_replicate h]
  decide

section Literal
variable {whole fraction : List Char}

theorem ofLiteral?_whole (hw : ∀ c ∈ whole, isDigit c) (hne : whole ≠ []) :
    ofLiteral? whole = some ⟨digitsToNat whole, 0⟩ := by
  have htake : whole.takeWhile isDigit = whole := List.takeWhile_eq_self_iff.2 hw
  have hdrop : whole.dropWhile isDigit = [] := List.dropWhile_eq_nil_iff.2 hw
  simp [ofLiteral?, htake, hdrop, fractionPart, exponentPart?, hne]

theorem ofLiteral?_point (hw : ∀ c ∈ whole, isDigit c) (hf : ∀ c ∈ fraction, isDigit c)
    (hne : fraction ≠ []) : ofLiteral? (whole ++ '.' :: fraction) =
      some ⟨digitsToNat (whole ++ fraction), -(fraction.length : Int)⟩ := by
  have hpoint : isDigit '.' = false := by decide
  have htake : (whole ++ '.' :: fraction).takeWhile isDigit = whole := by
    rw [List.takeWhile_append_of_pos hw]
    simp [hpoint]
  have hdrop : (whole ++ '.' :: fraction).dropWhile isDigit = '.' :: fraction := by
    rw [List.dropWhile_append_of_pos hw]
    simp [hpoint]
  have htake' : fraction.takeWhile isDigit = fraction := List.takeWhile_eq_self_iff.2 hf
  have hdrop' : fraction.dropWhile isDigit = [] := List.dropWhile_eq_nil_iff.2 hf
  simp [ofLiteral?, htake, hdrop, fractionPart, htake', hdrop', exponentPart?, hne]

end Literal

/-- The decimal that the plain text of a decimal is read as: trailing zeros are digits. -/
def spread (d : Decimal) : Decimal :=
  if 0 ≤ d.exponent then ⟨d.coefficient * 10 ^ d.exponent.toNat, 0⟩ else d

theorem ofLiteral?_positionalText (d : Decimal) :
    ofLiteral? (positionalText [] d) = some d.spread := by
  obtain ⟨c, e⟩ := d
  have hne := natDigits_ne_nil c
  have hdigit : ∀ a ∈ natDigits c, isDigit a := fun a ha => isDigit_of_mem_natDigits ha
  simp only [positionalText, spread, List.append_nil]
  by_cases he : 0 ≤ e
  · rw [if_pos he, if_pos he, ofLiteral?_whole]
    · simp [digitsToNat_append, digitsToNat_natDigits, digitsToNat_zeros]
    · intro a ha
      exact (List.mem_append.1 ha).elim (hdigit a) isDigit_of_mem_zeros
    · simp [hne]
  · rw [if_neg he, if_neg he]
    by_cases hp : 0 < ((natDigits c).length : Int) + e
    · rw [if_pos hp, ofLiteral?_point]
      · rw [List.take_append_drop, digitsToNat_natDigits, List.length_drop]
        congr 2
        omega
      · exact fun a ha => hdigit a (List.mem_of_mem_take ha)
      · exact fun a ha => hdigit a (List.mem_of_mem_drop ha)
      · simp only [ne_eq, List.drop_eq_nil_iff]
        omega
    · rw [if_neg hp]
      have hzero : ∀ a ∈ ['0'], isDigit a := fun a ha => List.mem_singleton.1 ha ▸ by decide
      have hfraction : ∀ k, ∀ a ∈ List.replicate k '0' ++ natDigits c, isDigit a :=
        fun k a ha => (List.mem_append.1 ha).elim isDigit_of_mem_zeros (hdigit a)
      refine (ofLiteral?_point hzero (hfraction _) (by simp [hne])).trans ?_
      rw [digitsToNat_append, digitsToNat_append, digitsToNat_zeros, digitsToNat_natDigits]
      simp only [digitsToNat, List.length_append, List.length_replicate]
      congr 2
      · simp
      · omega

/-- Spreading the exponent does not change what is read, unless the decimal is too large. -/
theorem toBinary64_spread {negative : Bool} {d : Decimal} (h : (d.toBinary64 negative).isFinite) :
    d.spread.toBinary64 negative = d.toBinary64 negative := by
  obtain ⟨c, e⟩ := d
  cases e with
  | negSucc e => rfl
  | ofNat e =>
    have hspread : spread ⟨c, .ofNat e⟩ = ⟨c * 10 ^ e, .ofNat 0⟩ := by simp [spread]
    rw [hspread]
    by_cases hc : c = 0
    · simp [toBinary64, hc]
    · have hpow : c * 10 ^ e ≠ 0 := Nat.mul_ne_zero hc (Nat.ne_of_gt (Nat.pow_pos (by decide)))
      have he : ¬ 400 < e := by
        intro he
        cases negative <;> simp [toBinary64, hc, he, Binary64.infinity, Binary64.isFinite,
          Binary64.ofIndex] at h
      simp only [toBinary64, if_neg hc, if_neg hpow, if_neg he]
      simp

theorem exists_positionalText (d : Decimal) :
    ∃ c cs, positionalText [] d = c :: cs ∧ isDigit c = true := by
  obtain ⟨c, e⟩ := d
  cases hd : natDigits c with
  | nil => exact absurd hd (natDigits_ne_nil c)
  | cons a as =>
    have ha : isDigit a = true := isDigit_of_mem_natDigits (n := c) (by simp [hd])
    simp only [positionalText, hd]
    split
    · exact ⟨a, _, rfl, ha⟩
    · split
      · next hp =>
        obtain ⟨k, hk⟩ : ∃ k, (((a :: as).length : Int) + e).toNat = k + 1 :=
          ⟨_, (Nat.succ_pred_eq_of_pos (by omega)).symm⟩
        rw [hk]
        exact ⟨a, _, rfl, ha⟩
      · exact ⟨'0', _, rfl, by decide⟩

theorem isDigit_or_eq_of_mem_positionalText {d : Decimal} {c : Char} (h : c ∈ positionalText [] d) :
    isDigit c = true ∨ c = '.' := by
  have hdigit : c ∈ natDigits d.coefficient → isDigit c = true := isDigit_of_mem_natDigits
  simp only [positionalText] at h
  split at h
  · simp only [List.append_nil] at h
    exact .inl ((List.mem_append.1 h).elim hdigit isDigit_of_mem_zeros)
  · split at h
    · rcases List.mem_append.1 h with h | h
      · exact .inl (hdigit (List.mem_of_mem_take h))
      · rcases List.mem_cons.1 h with rfl | h
        · exact .inr rfl
        · exact .inl (hdigit (List.mem_of_mem_drop h))
    · rcases List.mem_cons.1 h with rfl | h
      · exact .inl (by decide)
      · rcases List.mem_cons.1 h with rfl | h
        · exact .inr rfl
        · exact .inl ((List.mem_append.1 h).elim isDigit_of_mem_zeros hdigit)

end Decimal

namespace Binary64
open Decimal

/-- The characters of the plain texts of numbers. -/
def isTextChar (c : Char) : Bool := isDigit c || c == '-' || c == '.'

theorem text_of_isFinite {x : Binary64} (h : x.isFinite) : x.text =
    (if x.negative then ['-'] else []) ++ positionalText [] (shortest .up x.index) := by
  simp [text, write, isNaN_eq_false h, h, Layout.write, Layout.plain]

theorem ofUnsignedText?_positionalText (negative : Bool) (d : Decimal) :
    ofUnsignedText? negative (positionalText [] d) = some (d.spread.toBinary64 negative) := by
  obtain ⟨c, cs, htext, hc⟩ := exists_positionalText d
  have hlower := toLower_of_isDigit hc
  have hi : c ≠ 'i' := by
    rintro rfl
    exact absurd hc (by decide)
  have hn : c ≠ 'n' := by
    rintro rfl
    exact absurd hc (by decide)
  have hread := ofLiteral?_positionalText d
  rw [htext] at hread ⊢
  simp [ofUnsignedText?, lowerAscii, hlower, hi, hn, hread]

theorem ofText?_text {x : Binary64} (h : x.isFinite) : ofText? x.text = some x := by
  have hread := toBinary64_shortest .up h
  have hspread : (shortest .up x.index).spread.toBinary64 x.negative = x := by
    rw [toBinary64_spread (by rw [hread]; exact h), hread]
  rw [text_of_isFinite h]
  cases hn : x.negative with
  | true =>
    rw [hn] at hspread
    simp [ofText?, ofUnsignedText?_positionalText, hspread]
  | false =>
    rw [hn] at hspread
    have hunsigned := ofUnsignedText?_positionalText false (shortest .up x.index)
    obtain ⟨c, cs, htext, hc⟩ := exists_positionalText (shortest .up x.index)
    rw [htext, hspread] at hunsigned
    simp only [Bool.false_eq_true, if_false, List.nil_append, htext]
    unfold ofText?
    split
    · next hcs => cases hcs; exact absurd hc (by decide)
    · next hcs => cases hcs; exact absurd hc (by decide)
    · exact hunsigned

theorem isTextChar_of_mem_text {x : Binary64} (h : x.isFinite) {c : Char} (hc : c ∈ x.text) :
    isTextChar c = true := by
  rw [text_of_isFinite h] at hc
  rcases List.mem_append.1 hc with hc | hc
  · split at hc
    · rw [List.mem_singleton] at hc
      subst hc
      decide
    · simp at hc
  · rcases isDigit_or_eq_of_mem_positionalText hc with hc | rfl
    · simp [isTextChar, hc]
    · decide

theorem isBlank_of_isTextChar {c : Char} (h : isTextChar c) : Text.isBlank c = false := by
  simp only [isTextChar, Bool.or_eq_true, beq_iff_eq] at h
  rcases h with (h | rfl) | rfl
  · obtain ⟨d, hd, rfl⟩ := Decimal.exists_digitChar h
    have hall : ∀ d < 10, Text.isBlank (Text.digitChar d) = false := by decide
    exact hall d hd
  · decide
  · decide

end Binary64
end Telemetry
