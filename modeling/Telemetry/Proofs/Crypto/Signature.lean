import Telemetry.Crypto.Signature
import Telemetry.Http.Message

/-!
Signatures are accepted by those who have the key. A signature is written in base64, which is read back,
and the text survives on its way in a header: all of its characters are visible and none is blank.
-/
namespace Telemetry

namespace Base64

theorem one?_symbols (a : UInt8) :
    one? (symbol (a.toNat / 4)) (symbol (a.toNat % 4 * 16)) = some [a] := by
  have ha := a.toNat_lt
  have hsum : a.toNat / 4 * 4 + a.toNat % 4 * 16 / 16 = a.toNat := by omega
  rw [one?, value?_symbol (by omega), value?_symbol (by omega)]
  simp only [bind, Option.bind, hsum, UInt8.ofNat_toNat]
  rw [if_pos (by omega)]

theorem two?_symbols (a b : UInt8) :
    two? (symbol (a.toNat / 4)) (symbol (a.toNat % 4 * 16 + b.toNat / 16))
      (symbol (b.toNat % 16 * 4)) = some [a, b] := by
  have ha := a.toNat_lt
  have hb := b.toNat_lt
  have hfirst : a.toNat / 4 * 4 + (a.toNat % 4 * 16 + b.toNat / 16) / 16 = a.toNat := by omega
  have hsecond : (a.toNat % 4 * 16 + b.toNat / 16) % 16 * 16 + b.toNat % 16 * 4 / 4 = b.toNat := by
    omega
  rw [two?, value?_symbol (by omega), value?_symbol (by omega), value?_symbol (by omega)]
  simp only [bind, Option.bind, hfirst, hsecond, UInt8.ofNat_toNat]
  rw [if_pos (by omega)]

theorem three?_symbols (a b c : UInt8) :
    three? (symbol (a.toNat / 4)) (symbol (a.toNat % 4 * 16 + b.toNat / 16))
      (symbol (b.toNat % 16 * 4 + c.toNat / 64)) (symbol (c.toNat % 64)) = some [a, b, c] := by
  have ha := a.toNat_lt
  have hb := b.toNat_lt
  have hc := c.toNat_lt
  have hfirst : a.toNat / 4 * 4 + (a.toNat % 4 * 16 + b.toNat / 16) / 16 = a.toNat := by omega
  have hsecond : (a.toNat % 4 * 16 + b.toNat / 16) % 16 * 16 +
      (b.toNat % 16 * 4 + c.toNat / 64) / 4 = b.toNat := by omega
  have hthird : (b.toNat % 16 * 4 + c.toNat / 64) % 4 * 64 + c.toNat % 64 = c.toNat := by omega
  rw [three?, value?_symbol (by omega), value?_symbol (by omega), value?_symbol (by omega),
    value?_symbol (by omega)]
  simp only [bind, Option.bind, hfirst, hsecond, hthird, UInt8.ofNat_toNat]

theorem decode?_group {a b c d : Char} (hd : d ≠ '=') (rest : List Char) :
    decode? (a :: b :: c :: d :: rest) =
      (three? a b c d).bind fun group => (decode? rest).map (group ++ ·) := by
  rw [decode?.eq_def]
  split
  · next h => cases h
  · next h => simp_all
  · next h => simp_all
  · next h =>
    obtain ⟨rfl, rfl, rfl, rfl, rfl⟩ := by simpa using h
    cases three? a b c d with
    | none => rfl
    | some group =>
      simp only [bind, Option.bind]
      cases decode? rest <;> rfl
  · next h => exact absurd rfl (h a b c d rest)

theorem decode?_encode (bs : Bytes) : decode? (encode bs) = some bs := by
  induction bs using encode.induct with
  | case1 a b c rest ih =>
    rw [encode, decode?_group (symbol_ne_padding (Nat.mod_lt _ (by decide))), three?_symbols, ih]
    rfl
  | case2 a b =>
    have hc : symbol (b.toNat % 16 * 4) ≠ '=' := symbol_ne_padding (by omega)
    rw [encode, decode?]
    · exact two?_symbols a b
    · exact hc
  | case3 a => exact one?_symbols a
  | case4 => rfl

theorem mem_encode {bs : Bytes} {c : Char} (h : c ∈ encode bs) : c = '=' ∨ ∃ n < 64, c = symbol n := by
  induction bs using encode.induct with
  | case1 a b c' rest ih =>
    have ha := a.toNat_lt
    have hb := b.toNat_lt
    have hc := c'.toNat_lt
    simp only [encode, List.mem_cons] at h
    rcases h with rfl | rfl | rfl | rfl | h
    · exact .inr ⟨_, by omega, rfl⟩
    · exact .inr ⟨_, by omega, rfl⟩
    · exact .inr ⟨_, by omega, rfl⟩
    · exact .inr ⟨_, by omega, rfl⟩
    · exact ih h
  | case2 a b =>
    have ha := a.toNat_lt
    have hb := b.toNat_lt
    simp only [encode, List.mem_cons, List.not_mem_nil, or_false] at h
    rcases h with rfl | rfl | rfl | rfl
    · exact .inr ⟨_, by omega, rfl⟩
    · exact .inr ⟨_, by omega, rfl⟩
    · exact .inr ⟨_, by omega, rfl⟩
    · exact .inl rfl
  | case3 a =>
    have ha := a.toNat_lt
    simp only [encode, List.mem_cons, List.not_mem_nil, or_false] at h
    rcases h with rfl | rfl | rfl | rfl
    · exact .inr ⟨_, by omega, rfl⟩
    · exact .inr ⟨_, by omega, rfl⟩
    · exact .inl rfl
    · exact .inl rfl
  | case4 => simp [encode] at h

theorem isBlank_of_mem_encode {bs : Bytes} {c : Char} (h : c ∈ encode bs) : Text.isBlank c = false := by
  have hall : ∀ n < 64, Text.isBlank (symbol n) = false := by decide
  rcases mem_encode h with rfl | ⟨n, hn, rfl⟩
  · decide
  · exact hall n hn

theorem trim_encode (bs : Bytes) : Text.trim (encode bs) = encode bs := by
  have htrim : Text.trim ([] ++ encode bs ++ []) = encode bs :=
    Text.trim_surrounded rfl rfl (fun c hc => isBlank_of_mem_encode (List.mem_of_mem_head? hc))
      (fun c hc => isBlank_of_mem_encode (List.mem_of_mem_getLast? hc))
  simpa using htrim

end Base64

namespace Signature
variable (body key : Bytes)

theorem verify_sign : verify body key (sign body key) = .ok () := by
  rw [verify, sign, Base64.trim_encode, Base64.decode?_encode]
  exact if_pos rfl

/-- A signature can be read from the header that it is written into. -/
theorem visibleText?_sign : Http.visibleText? (Bytes.ofText (String.ofList (sign body key))) =
    some (String.ofList (sign body key)) := by
  have hall : ∀ n < 64, (String.utf8EncodeChar (Base64.symbol n)).all Http.isVisible := by decide
  have hvisible : (Bytes.ofText (String.ofList (sign body key))).all Http.isVisible := by
    rw [Bytes.ofText_ofList, List.all_flatMap, List.all_eq_true]
    intro c hc
    rcases Base64.mem_encode hc with rfl | ⟨n, hn, rfl⟩
    · decide
    · exact hall n hn
  rw [Http.visibleText?, if_pos hvisible, Bytes.toText?_ofText]

end Signature
end Telemetry
