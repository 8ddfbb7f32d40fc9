import Telemetry.Proofs.Crypto.Signature

/-!
Exactly one text is accepted as the signature of a body. Every byte string has one text in base64, and the
reader takes the texts that are written and no others: it knows one alphabet, wants the last group filled, and
has the bits behind the last octet be zero. So what is accepted is, character for character, what signing gives.
-/
namespace Telemetry

namespace Base64

/-- The characters in the order of their values. -/
def alphabet : List Char :=
  "ABCDEFGHIJKLMNOPQRSTUVWXYZabcdefghijklmnopqrstuvwxyz0123456789+/".toList

/-- Groups of four characters of the alphabet. The last group may be of two or three, filled with the padding
character; then its last character has zeros where no octet takes its bits. -/
inductive IsCanonical : List Char → Prop
  | nil : IsCanonical []
  | one {a b : Char} {n : Nat} (ha : a ∈ alphabet) (hb : alphabet[16 * n]? = some b) :
      IsCanonical [a, b, '=', '=']
  | two {a b c : Char} {n : Nat} (ha : a ∈ alphabet) (hb : b ∈ alphabet) (hc : alphabet[4 * n]? = some c) :
      IsCanonical [a, b, c, '=']
  | group {a b c d : Char} {rest : List Char} (ha : a ∈ alphabet) (hb : b ∈ alphabet) (hc : c ∈ alphabet)
      (hd : d ∈ alphabet) (hrest : IsCanonical rest) : IsCanonical (a :: b :: c :: d :: rest)

section Characters
variable {n : Nat} {c : Char}

theorem getElem?_alphabet_eq_some_iff : alphabet[n]? = some c ↔ n < 64 ∧ c = symbol n := by
  have hlength : alphabet.length = 64 := by decide +kernel
  have hsymbol : ∀ n < 64, alphabet[n]? = some (symbol n) := by decide +kernel
  constructor
  · intro h
    have hn : n < 64 := hlength ▸ (List.getElem?_eq_some_iff.1 h).1
    exact ⟨hn, Option.some.inj (h.symm.trans (hsymbol n hn))⟩
  · rintro ⟨hn, rfl⟩
    exact hsymbol n hn

theorem mem_alphabet_iff : c ∈ alphabet ↔ ∃ n < 64, c = symbol n := by
  simp [List.mem_iff_getElem?, getElem?_alphabet_eq_some_iff]

theorem value?_eq_some_iff : value? c = some n ↔ n < 64 ∧ c = symbol n := by
  constructor
  · intro h
    unfold value? at h
    dsimp only at h
    split at h
    · obtain rfl := Option.some.inj h
      refine ⟨by omega, ?_⟩
      rw [symbol, if_pos (by omega), show 65 + (c.toNat - 65) = c.toNat by omega, Char.ofNat_toNat]
    · split at h
      · obtain rfl := Option.some.inj h
        refine ⟨by omega, ?_⟩
        rw [symbol, if_neg (by omega), if_pos (by omega), show 71 + (c.toNat - 71) = c.toNat by omega,
          Char.ofNat_toNat]
      · split at h
        · obtain rfl := Option.some.inj h
          refine ⟨by omega, ?_⟩
          rw [symbol, if_neg (by omega), if_neg (by omega), if_pos (by omega),
            show c.toNat + 4 - 4 = c.toNat by omega, Char.ofNat_toNat]
        · split at h
          · next hc =>
            obtain rfl := Option.some.inj h
            exact ⟨by omega, hc⟩
          · split at h
            · next hc =>
              obtain rfl := Option.some.inj h
              exact ⟨by omega, hc⟩
            · cases h
  · rintro ⟨hn, rfl⟩
    exact value?_symbol hn

end Characters

section Groups
variable {a b c d : Char} {bs : Bytes}

theorem encode_of_one? (h : one? a b = some bs) : encode bs = [a, b, '=', '='] := by
  simp only [one?, bind, Option.bind_eq_some_iff, Option.ite_none_right_eq_some] at h
  obtain ⟨x, hx, y, hy, hzero, hbs⟩ := h
  obtain ⟨hx, rfl⟩ := value?_eq_some_iff.1 hx
  obtain ⟨hy, rfl⟩ := value?_eq_some_iff.1 hy
  obtain rfl := Option.some.inj hbs
  have hoctet : (x * 4 + y / 16) % 2 ^ 8 = x * 4 + y / 16 := by omega
  rw [encode, UInt8.toNat_ofNat', hoctet, show (x * 4 + y / 16) / 4 = x by omega,
    show (x * 4 + y / 16) % 4 * 16 = y by omega]

theorem encode_of_two? (h : two? a b c = some bs) : encode bs = [a, b, c, '='] := by
  simp only [two?, bind, Option.bind_eq_some_iff, Option.ite_none_right_eq_some] at h
  obtain ⟨x, hx, y, hy, z, hz, hzero, hbs⟩ := h
  obtain ⟨hx, rfl⟩ := value?_eq_some_iff.1 hx
  obtain ⟨hy, rfl⟩ := value?_eq_some_iff.1 hy
  obtain ⟨hz, rfl⟩ := value?_eq_some_iff.1 hz
  obtain rfl := Option.some.inj hbs
  have hfirst : (x * 4 + y / 16) % 2 ^ 8 = x * 4 + y / 16 := by omega
  have hsecond : (y % 16 * 16 + z / 4) % 2 ^ 8 = y % 16 * 16 + z / 4 := by omega
  rw [encode, UInt8.toNat_ofNat', UInt8.toNat_ofNat', hfirst, hsecond,
    show (x * 4 + y / 16) / 4 = x by omega,
    show (x * 4 + y / 16) % 4 * 16 + (y % 16 * 16 + z / 4) / 16 = y by omega,
    show (y % 16 * 16 + z / 4) % 16 * 4 = z by omega]

theorem encode_of_three? (h : three? a b c d = some bs) (tail : Bytes) :
    encode (bs ++ tail) = a :: b :: c :: d :: encode tail := by
  simp only [three?, bind, Option.bind_eq_some_iff] at h
  obtain ⟨x, hx, y, hy, z, hz, w, hw, hbs⟩ := h
  obtain ⟨hx, rfl⟩ := value?_eq_some_iff.1 hx
  obtain ⟨hy, rfl⟩ := value?_eq_some_iff.1 hy
  obtain ⟨hz, rfl⟩ := value?_eq_some_iff.1 hz
  obtain ⟨hw, rfl⟩ := value?_eq_some_iff.1 hw
  obtain rfl := Option.some.inj hbs
  have hfirst : (x * 4 + y / 16) % 2 ^ 8 = x * 4 + y / 16 := by omega
  have hsecond : (y % 16 * 16 + z / 4) % 2 ^ 8 = y % 16 * 16 + z / 4 := by omega
  have hthird : (z % 4 * 64 + w) % 2 ^ 8 = z % 4 * 64 + w := by omega
  simp only [List.cons_append, List.nil_append]
  rw [encode, UInt8.toNat_ofNat', UInt8.toNat_ofNat', UInt8.toNat_ofNat', hfirst, hsecond, hthird,
    show (x * 4 + y / 16) / 4 = x by omega,
    show (x * 4 + y / 16) % 4 * 16 + (y % 16 * 16 + z / 4) / 16 = y by omega,
    show (y % 16 * 16 + z / 4) % 16 * 4 + (z % 4 * 64 + w) / 64 = z by omega,
    show (z % 4 * 64 + w) % 64 = w by omega]

end Groups

section Texts
variable {cs : List Char} {bs : Bytes}

theorem encode_of_decode? (h : decode? cs = some bs) : encode bs = cs := by
  induction cs using decode?.induct generalizing bs with
  | case1 => cases h; rfl
  | case2 a b => exact encode_of_one? h
  | case3 a b c hc =>
    rw [decode?] at h
    · exact encode_of_two? h
    · exact hc
  | case4 a b c d rest hone htwo ih =>
    rw [decode?] at h
    · simp only [bind, Option.bind_eq_some_iff] at h
      obtain ⟨group, hgroup, tail, htail, hbs⟩ := h
      obtain rfl := Option.some.inj hbs
      rw [encode_of_three? hgroup, ih htail]
    · exact hone
    · exact htwo
  | case5 => simp_all [decode?]

theorem decode?_eq_some_iff : decode? cs = some bs ↔ cs = encode bs :=
  ⟨fun h => (encode_of_decode? h).symm, fun h => h ▸ decode?_encode bs⟩

theorem symbol_mem_alphabet {n : Nat} (h : n < 64) : symbol n ∈ alphabet :=
  mem_alphabet_iff.2 ⟨n, h, rfl⟩

theorem isCanonical_encode (bs : Bytes) : IsCanonical (encode bs) := by
  induction bs using encode.induct with
  | case1 a b c rest ih =>
    have ha := a.toNat_lt
    have hb := b.toNat_lt
    have hc := c.toNat_lt
    exact .group (symbol_mem_alphabet (by omega)) (symbol_mem_alphabet (by omega))
      (symbol_mem_alphabet (by omega)) (symbol_mem_alphabet (by omega)) ih
  | case2 a b =>
    have ha := a.toNat_lt
    have hb := b.toNat_lt
    refine .two (n := b.toNat % 16) (symbol_mem_alphabet (by omega)) (symbol_mem_alphabet (by omega)) ?_
    rw [Nat.mul_comm]
    exact getElem?_alphabet_eq_some_iff.2 ⟨by omega, rfl⟩
  | case3 a =>
    have ha := a.toNat_lt
    refine .one (n := a.toNat % 4) (symbol_mem_alphabet (by omega)) ?_
    rw [Nat.mul_comm]
    exact getElem?_alphabet_eq_some_iff.2 ⟨by omega, rfl⟩
  | case4 => exact .nil

/-- Canonical texts are read, group by group. -/
theorem IsCanonical.exists_decode? (h : IsCanonical cs) : ∃ bs, decode? cs = some bs := by
  induction h with
  | nil => exact ⟨[], rfl⟩
  | one ha hb =>
    obtain ⟨x, hx, rfl⟩ := mem_alphabet_iff.1 ha
    obtain ⟨hy, rfl⟩ := getElem?_alphabet_eq_some_iff.1 hb
    rw [decode?, one?, value?_symbol hx, value?_symbol hy]
    exact ⟨_, if_pos (by omega)⟩
  | two ha hb hc =>
    obtain ⟨x, hx, rfl⟩ := mem_alphabet_iff.1 ha
    obtain ⟨y, hy, rfl⟩ := mem_alphabet_iff.1 hb
    obtain ⟨hz, rfl⟩ := getElem?_alphabet_eq_some_iff.1 hc
    rw [decode?, two?, value?_symbol hx, value?_symbol hy, value?_symbol hz]
    · exact ⟨_, if_pos (by omega)⟩
    · exact symbol_ne_padding hz
  | group ha hb hc hd _ ih =>
    obtain ⟨x, hx, rfl⟩ := mem_alphabet_iff.1 ha
    obtain ⟨y, hy, rfl⟩ := mem_alphabet_iff.1 hb
    obtain ⟨z, hz, rfl⟩ := mem_alphabet_iff.1 hc
    obtain ⟨w, hw, rfl⟩ := mem_alphabet_iff.1 hd
    obtain ⟨bs, hbs⟩ := ih
    rw [decode?_group (symbol_ne_padding hw), three?, value?_symbol hx, value?_symbol hy, value?_symbol hz,
      value?_symbol hw, hbs]
    exact ⟨_, rfl⟩

theorem isCanonical_iff : IsCanonical cs ↔ ∃ bs, decode? cs = some bs := by
  constructor
  · exact IsCanonical.exists_decode?
  · rintro ⟨bs, hbs⟩
    rw [decode?_eq_some_iff.1 hbs]
    exact isCanonical_encode bs

end Texts
end Base64

namespace Sha256

@[simp] theorem length_blockKey (key : Bytes) : (blockKey key).length = 64 := by
  unfold blockKey
  split
  · simp
  · simp
    omega

end Sha256

namespace Signature
variable {body key : Bytes} {header : List Char}

theorem verify_of_decode? {digest : Bytes} (h : Base64.decode? (Text.trim header) = some digest) :
    verify body key header = if digest = Sha256.hmac key body then .ok () else .error .mismatch := by
  rw [verify, h]

theorem verify_of_decode?_eq_none (h : Base64.decode? (Text.trim header) = none) :
    verify body key header = .error .malformed := by
  rw [verify, h]

theorem verify_eq_malformed_iff :
    verify body key header = .error .malformed ↔ ¬ Base64.IsCanonical (Text.trim header) := by
  rw [Base64.isCanonical_iff]
  cases hdecode : Base64.decode? (Text.trim header) with
  | none => simp [verify_of_decode?_eq_none hdecode]
  | some digest =>
    rw [verify_of_decode? hdecode]
    refine iff_of_false ?_ fun h => h ⟨digest, rfl⟩
    split <;> simp

theorem verify_eq_ok_iff : verify body key header = .ok () ↔ Text.trim header = sign body key := by
  rw [sign, ← Base64.decode?_eq_some_iff]
  cases hdecode : Base64.decode? (Text.trim header) with
  | none => simp [verify_of_decode?_eq_none hdecode]
  | some digest => simp [verify_of_decode? hdecode]

/-- Of all texts just the signature itself is accepted, blanks around it aside; what is no base64 in its
canonical form is malformed, whatever it would stand for, and all else is the signature of something else. This
is so for keys of any length, as each of them fills one block. -/
theorem verify_exact (body key : Bytes) (header : List Char) :
    (Sha256.blockKey key).length = 64 ∧
    (verify body key header = .ok () ↔ Text.trim header = sign body key) ∧
    (verify body key header = .error .malformed ↔ ¬ Base64.IsCanonical (Text.trim header)) ∧
    (verify body key header = .error .mismatch ↔
      Base64.IsCanonical (Text.trim header) ∧ Text.trim header ≠ sign body key) := by
  refine ⟨Sha256.length_blockKey key, verify_eq_ok_iff, verify_eq_malformed_iff, ?_⟩
  have hcanonical : Base64.IsCanonical (Text.trim header) ↔ verify body key header ≠ .error .malformed := by
    rw [ne_eq, verify_eq_malformed_iff, Classical.not_not]
  rw [hcanonical, ne_eq (Text.trim header), ← verify_eq_ok_iff]
  rcases verify body key header with e | u
  · cases e <;> simp
  · simp

/-- The digest of the empty body under this key, with a bit set that no octet takes. -/
example : verify [] (Bytes.ofText "key") "XV0TlWPJW1lnub2ajJsjOp3ttFByeUzSMtwbdIMmB9B=".toList =
    .error .malformed := rfl

end Signature
end Telemetry
