import Telemetry.Net.Address
import Telemetry.Proofs.Json.Numbers

/-!
The numerals of addresses. An octet is a numeral of base ten and a group one of base sixteen, neither with
leading zeros. A reader goes as far as there are digits, so a numeral is read back in front of anything
that does not start with a digit.
-/
namespace Telemetry.Net.Address

section Digits
variable {base count n d : Nat}

theorem ofDigits_concat (base : Nat) (ds : List Nat) (d : Nat) :
    ofDigits base (ds ++ [d]) = ofDigits base ds * base + d := by
  simp [ofDigits]

@[simp] theorem length_toDigits (base count n : Nat) : (toDigits base count n).length = count := by
  induction count generalizing n with
  | zero => rfl
  | succ count ih => simp [toDigits, ih]

theorem lt_of_mem_toDigits (hbase : 0 < base) (hd : d ∈ toDigits base count n) : d < base := by
  induction count generalizing n with
  | zero => simp [toDigits] at hd
  | succ count ih =>
    rcases List.mem_append.1 hd with hd | hd
    · exact ih hd
    · rw [List.mem_singleton] at hd
      exact hd ▸ Nat.mod_lt n hbase

theorem ofDigits_toDigits (hn : n < base ^ count) : ofDigits base (toDigits base count n) = n := by
  induction count generalizing n with
  | zero =>
    have hzero : n = 0 := Nat.lt_one_iff.1 hn
    exact hzero.symm
  | succ count ih =>
    have hdiv : n / base < base ^ count := by
      rw [Nat.pow_succ, Nat.mul_comm] at hn
      exact Nat.div_lt_of_lt_mul hn
    rw [toDigits, ofDigits_concat, ih hdiv, Nat.div_add_mod']

end Digits

/-- The text does not start with a digit, whose values are given. -/
def Stops (value : Char → Option Nat) (rest : List Char) : Prop := ∀ c ∈ rest.head?, value c = none

theorem Stops.takeWhile_eq_nil {value : Char → Option Nat} {rest : List Char} (h : Stops value rest) :
    rest.takeWhile (fun c => (value c).isSome) = [] := by
  cases rest with
  | nil => rfl
  | cons c rest => simp [h c rfl]

section Numerals
variable {base : Nat} {value : Char → Option Nat} {n : Nat} {rest : List Char}

/-- A numeral is a row of digits below the base that stand for the number. -/
theorem exists_numeral (hbase : 1 < base) (n : Nat) : ∃ ds, Nat.toDigits base n = ds.map Nat.digitChar ∧
    (∀ d ∈ ds, d < base) ∧ ofDigits base ds = n := by
  induction n using Nat.strongRecOn with
  | _ n ih =>
    by_cases hn : n < base
    · exact ⟨[n], Nat.toDigits_of_lt_base hn, by simpa using hn, by simp [ofDigits]⟩
    · have hle : base ≤ n := Nat.le_of_not_lt hn
      obtain ⟨ds, hds, hlt, hvalue⟩ := ih (n / base) (Nat.div_lt_self (by omega) hbase)
      have hlast : n % base < base := Nat.mod_lt n (by omega)
      refine ⟨ds ++ [n % base], ?_, ?_, ?_⟩
      · rw [Nat.toDigits_of_base_le hbase hle, hds, List.map_append, List.map_singleton]
      · simpa [or_imp, forall_and] using ⟨hlt, hlast⟩
      · rw [ofDigits_concat, hvalue, Nat.div_add_mod']

theorem forall_mem_numeral {p : Char → Prop} (hbase : 1 < base) (hdigit : ∀ d < base, p (Nat.digitChar d))
    (n : Nat) : ∀ c ∈ Nat.toDigits base n, p c := by
  obtain ⟨ds, hds, hlt, -⟩ := exists_numeral hbase n
  rw [hds, List.forall_mem_map]
  exact fun d hd => hdigit d (hlt d hd)

theorem takeWhile_numeral (hbase : 1 < base) (hvalue : ∀ d < base, value (Nat.digitChar d) = some d)
    (n : Nat) (hrest : Stops value rest) :
    (Nat.toDigits base n ++ rest).takeWhile (fun c => (value c).isSome) = Nat.toDigits base n := by
  have hdigits : ∀ c ∈ Nat.toDigits base n, (value c).isSome :=
    forall_mem_numeral hbase (fun d hd => by simp [hvalue d hd]) n
  rw [List.takeWhile_append_of_pos hdigits, hrest.takeWhile_eq_nil, List.append_nil]

theorem ofDigits_numeral (hbase : 1 < base) (hvalue : ∀ d < base, value (Nat.digitChar d) = some d)
    (n : Nat) : ofDigits base ((Nat.toDigits base n).filterMap value) = n := by
  obtain ⟨ds, hds, hlt, hn⟩ := exists_numeral hbase n
  have hvalues : ds.filterMap (value ∘ Nat.digitChar) = ds.filterMap some :=
    List.filterMap_congr fun d hd => hvalue d (hlt d hd)
  rw [hds, List.filterMap_map, hvalues, List.filterMap_some, hn]

end Numerals

section Octets
variable {n : Nat} {cs rest : List Char}

theorem natDigits_eq_toDigits (n : Nat) : Text.natDigits n = Nat.toDigits 10 n := by
  have hchar : ∀ d < 10, Text.digitChar d = Nat.digitChar d := by decide
  induction n using Nat.strongRecOn with
  | _ n ih =>
    rw [Text.natDigits]
    split
    · next hn => rw [hchar n hn, Nat.toDigits_of_lt_base hn]
    · next hn =>
      rw [ih (n / 10) (by omega), hchar (n % 10) (Nat.mod_lt n (by decide)),
        ← Nat.toDigits_of_base_le (by decide) (Nat.le_of_not_lt hn)]

theorem digitValue?_natDigitChar : ∀ d < 10, Text.digitValue? (Nat.digitChar d) = some d := by decide

theorem suffix_of_octet? (h : octet? cs = some (n, rest)) : rest <:+ cs := by
  unfold octet? at h
  dsimp only at h
  split at h
  · cases h
  · cases h
    exact List.drop_suffix _ _

theorem octet?_eq_none (h : Stops Text.digitValue? cs) : octet? cs = none := by
  simp [octet?, h.takeWhile_eq_nil]

theorem octet?_natDigits (hn : n < 256) (hrest : Stops Text.digitValue? rest) :
    octet? (Text.natDigits n ++ rest) = some (n, rest) := by
  have hdigits : (Text.natDigits n ++ rest).takeWhile (fun c => (Text.digitValue? c).isSome) =
      Text.natDigits n := by
    rw [natDigits_eq_toDigits]
    exact takeWhile_numeral (by decide) digitValue?_natDigitChar n hrest
  have hvalue : ofDigits 10 ((Text.natDigits n).filterMap Text.digitValue?) = n := by
    rw [natDigits_eq_toDigits]
    exact ofDigits_numeral (by decide) digitValue?_natDigitChar n
  have hlength : (Text.natDigits n).length ≤ 3 := by
    rw [natDigits_eq_toDigits, Nat.length_toDigits_le_iff (by decide) (by decide)]
    exact Nat.lt_trans hn (by decide)
  have hzero : ¬ (1 < (Text.natDigits n).length ∧ (Text.natDigits n).head? = some '0') := by
    rintro ⟨hlong, hhead⟩
    have hpos : n ≠ 0 := by
      rintro rfl
      rw [Text.natDigits, if_pos (by decide)] at hlong
      exact absurd hlong (by decide)
    obtain ⟨d, ds, hds, hd, hd', -⟩ := Json.exists_natDigits hpos
    have hall : ∀ d < 10, 0 < d → Text.digitChar d ≠ '0' := by decide
    rw [hds] at hhead
    exact hall d hd' hd (Option.some.inj hhead)
  unfold octet?
  dsimp only
  rw [hdigits, hvalue, if_neg, List.drop_left]
  simp only [not_or, Nat.not_lt]
  exact ⟨Text.natDigits_ne_nil n, hlength, hzero, by omega⟩

end Octets

section Groups
variable {g : Nat} {cs rest : List Char}

theorem hexDigit?_natDigitChar : ∀ d < 16, hexDigit? (Nat.digitChar d) = some d := by decide

theorem group?_eq_none (h : Stops hexDigit? cs) : group? cs = none := by
  simp [group?, h.takeWhile_eq_nil]

theorem group?_toDigits (hg : g < 65536) (hrest : Stops hexDigit? rest) :
    group? (Nat.toDigits 16 g ++ rest) = some (g, rest) := by
  have hdigits := takeWhile_numeral (by decide) hexDigit?_natDigitChar g hrest
  have hlength : (Nat.toDigits 16 g).length ≤ 4 := by
    rw [Nat.length_toDigits_le_iff (by decide) (by decide)]
    exact hg
  unfold group?
  dsimp only
  rw [hdigits, ofDigits_numeral (by decide) hexDigit?_natDigitChar, if_neg, List.drop_left]
  simp only [not_or, Nat.not_lt]
  exact ⟨Nat.toDigits_ne_nil, hlength⟩

end Groups
end Telemetry.Net.Address
