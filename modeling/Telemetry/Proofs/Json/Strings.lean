import Telemetry.Proofs.Json.Scanning

/-!
JSON strings. The machine finds the end of every string, and of those that have been written each escape
is read as the byte that it was written for.
-/
namespace Telemetry.Json

/-- How a byte stands in a string: as one of the short escapes, as a control character in four digits,
or as it is. -/
theorem escapeByte_cases (b : UInt8) :
    (∃ c, escapeByte b = [Ascii.backslash, c] ∧ ofShortEscape? c = some b ∧ c ≠ 117) ∨
    (b < 32 ∧ escapeByte b =
      [Ascii.backslash, 117, 48, 48, hexByte (b.toNat / 16), hexByte (b.toNat % 16)]) ∨
    (escapeByte b = [b] ∧ b ≠ Ascii.quote ∧ b ≠ Ascii.backslash ∧ ¬ b < 32) := by
  cases hc : shortEscape? b with
  | some c =>
    refine .inl ⟨c, by simp [escapeByte, hc], ?_⟩
    unfold shortEscape? at hc
    repeat' split at hc
    all_goals simp_all
    all_goals
      subst_vars
      decide
  | none =>
    by_cases hb : b < 32
    · exact .inr (.inl ⟨hb, by simp [escapeByte, hc, hb]⟩)
    · refine .inr (.inr ⟨by simp [escapeByte, hc, hb], ?_, ?_, hb⟩)
      · rintro rfl
        cases hc
      · rintro rfl
        cases hc

theorem hexValue?_hexByte {n : Nat} (h : n < 16) : Bytes.hexValue? (hexByte n) = some n := by
  have hall : ∀ n < 16, Bytes.hexValue? (hexByte n) = some n := by decide
  exact hall n h

theorem isCharacter_escapeByte (b : UInt8) : IsCharacter (escapeByte b) := by
  rcases escapeByte_cases b with ⟨c, hb, hc, -⟩ | ⟨hsmall, hb⟩ | ⟨hb, hquote, hback, hlarge⟩
  · rw [hb]
    refine .short ?_
    unfold ofShortEscape? at hc
    repeat' split at hc
    all_goals simp_all
  · have hlt : b.toNat < 32 := by simpa [UInt8.lt_iff_toNat_lt] using hsmall
    have hhigh := hexValue?_hexByte (n := b.toNat / 16) (by omega)
    have hlow := hexValue?_hexByte (n := b.toNat % 16) (by omega)
    have hzero : Bytes.hexValue? 48 = some 0 := rfl
    rw [hb]
    exact .code (by simp [hzero, hhigh, hlow])
  · rw [hb]
    exact .plain hquote hback hlarge

theorem isString_quote (s : String) : IsString (quote s) := by
  have hcs : ∀ c ∈ (Bytes.ofText s).map escapeByte, IsCharacter c := by
    intro c hc
    obtain ⟨b, -, rfl⟩ := List.mem_map.1 hc
    exact isCharacter_escapeByte b
  exact .mk hcs

section Machine
variable {isKey : Bool} {outer : List Bracket} {bs : Bytes}

theorem step?_hex {b : UInt8} (h : (Bytes.hexValue? b).isSome) (left : Nat) :
    State.step? ⟨.hex isKey (left + 1), outer⟩ b = some ⟨.hex isKey left, outer⟩ ∧
      State.step? ⟨.hex isKey 0, outer⟩ b = some ⟨.string isKey, outer⟩ := by
  obtain ⟨n, hn⟩ := Option.isSome_iff_exists.1 h
  simp [State.step?, hn]

/-- Whatever a character is written as, the machine is still in the string behind it. -/
theorem steps?_character {c : Bytes} (h : IsCharacter c) (bs : Bytes) :
    steps? (c ++ bs) ⟨.string isKey, outer⟩ = steps? bs ⟨.string isKey, outer⟩ := by
  have hbackslash : State.step? ⟨.string isKey, outer⟩ Ascii.backslash =
      some ⟨.escape isKey, outer⟩ := rfl
  cases h with
  | @plain b hquote hback hlarge =>
    have hstep : State.step? ⟨.string isKey, outer⟩ b = some ⟨.string isKey, outer⟩ := by
      simp [State.step?, hquote, hback, hlarge]
    rw [List.singleton_append, steps?_cons_inside (by simp) (by simp) hstep]
  | @short c hc =>
    have hstep : ∀ c ∈ [Ascii.quote, Ascii.backslash, Ascii.slash, 98, 102, 110, 114, 116],
        State.step? ⟨.escape isKey, outer⟩ c = some ⟨.string isKey, outer⟩ := by
      intro c hc
      simp only [List.mem_cons, List.not_mem_nil, or_false] at hc
      rcases hc with rfl | rfl | rfl | rfl | rfl | rfl | rfl | rfl <;> rfl
    rw [List.cons_append, List.singleton_append,
      steps?_cons_inside (by simp) (by simp) hbackslash,
      steps?_cons_inside (by simp) (by simp) (hstep c hc)]
  | @code d₁ d₂ d₃ d₄ hds =>
    have hu : State.step? ⟨.escape isKey, outer⟩ 117 = some ⟨.hex isKey 3, outer⟩ := rfl
    simp only [List.cons_append, List.nil_append]
    rw [steps?_cons_inside (by simp) (by simp) hbackslash,
      steps?_cons_inside (by simp) (by simp) hu,
      steps?_cons_inside (by simp) (by simp) (step?_hex (hds d₁ (by simp)) 2).1,
      steps?_cons_inside (by simp) (by simp) (step?_hex (hds d₂ (by simp)) 1).1,
      steps?_cons_inside (by simp) (by simp) (step?_hex (hds d₃ (by simp)) 0).1,
      steps?_cons_inside (by simp) (by simp) (step?_hex (hds d₄ (by simp)) 0).2]

theorem steps?_characters {cs : List Bytes} (hcs : ∀ c ∈ cs, IsCharacter c) (bs : Bytes) :
    steps? (cs.flatten ++ bs) ⟨.string isKey, outer⟩ = steps? bs ⟨.string isKey, outer⟩ := by
  induction cs with
  | nil => rfl
  | cons c cs ih =>
    obtain ⟨hc, hrest⟩ := List.forall_mem_cons.1 hcs
    rw [List.flatten_cons, List.append_assoc, steps?_character hc, ih hrest]

theorem steps?_string (h : IsString bs) {mode : Mode} (hmode : mode.isWaiting)
    (hquote : State.step? ⟨mode, outer⟩ Ascii.quote = some ⟨.string isKey, outer⟩) :
    steps? bs ⟨mode, outer⟩ = some ⟨if isKey then .colon else .next, outer⟩ := by
  obtain ⟨hcs⟩ := h
  have hend : State.step? ⟨.string isKey, outer⟩ Ascii.quote =
      some ⟨if isKey then .colon else .next, outer⟩ := rfl
  rw [steps?_cons_waiting hmode hquote, steps?_characters hcs,
    steps?_cons_inside (by simp) (by simp) hend]
  rfl

theorem IsString.exists_cons (h : IsString bs) : ∃ cs, bs = Ascii.quote :: cs := by
  obtain ⟨hcs⟩ := h
  exact ⟨_, rfl⟩

theorem IsString.isValue (h : IsString bs) : IsValue bs := by
  refine ⟨?_, fun outer => ⟨⟨.next, outer⟩, @steps?_string false outer bs h .value rfl rfl, .next⟩⟩
  obtain ⟨cs, rfl⟩ := h.exists_cons
  exact ⟨_, _, rfl, by decide⟩

end Machine

section Reading

theorem unescape?_short {b c : UInt8} (h : ofShortEscape? c = some b) (hc : c ≠ 117)
    (seen rest : Bytes) :
    unescape? seen (Ascii.backslash :: c :: rest) = unescape? (b :: seen) rest := by
  rw [unescape?.eq_def]
  split
  · next heq => simp_all
  · next heq =>
    obtain ⟨-, heq⟩ := List.cons.inj heq
    obtain ⟨rfl, rfl⟩ := List.cons.inj heq
    rw [h]
  · next heq => simp at heq
  · next hshort _ heq =>
    obtain ⟨rfl, rfl⟩ := List.cons.inj heq
    exact absurd rfl (hshort c rest rfl)
  · next heq => simp at heq

theorem unescape?_plain {b : UInt8} (hquote : b ≠ Ascii.quote) (hback : b ≠ Ascii.backslash)
    (hlarge : ¬ b < 32) (seen rest : Bytes) :
    unescape? seen (b :: rest) = unescape? (b :: seen) rest := by
  rw [unescape?.eq_def]
  split
  · next heq => exact absurd (List.cons.inj heq).1 hback
  · next heq => exact absurd (List.cons.inj heq).1 hback
  · next heq => exact absurd (List.cons.inj heq).1 hquote
  · next heq =>
    obtain ⟨rfl, rfl⟩ := List.cons.inj heq
    simp [hquote, hlarge]
  · next heq => simp at heq

theorem unescape?_code {a b c d : UInt8} {n : Nat} (h : hex4? a b c d = some n) (hn : n < 0xD800)
    (seen rest : Bytes) : unescape? seen (Ascii.backslash :: 117 :: a :: b :: c :: d :: rest) =
      unescape? (codePointReversed n ++ seen) rest := by
  rw [unescape?.eq_def]
  simp only [h]
  rw [if_neg (by omega), if_neg (by omega)]

theorem unescape?_escapeByte (b : UInt8) (seen rest : Bytes) :
    unescape? seen (escapeByte b ++ rest) = unescape? (b :: seen) rest := by
  rcases escapeByte_cases b with ⟨c, hb, hc, hne⟩ | ⟨hsmall, hb⟩ | ⟨hb, hquote, hback, hlarge⟩
  · rw [hb]
    exact unescape?_short hc hne seen rest
  · have hlt : b.toNat < 32 := by simpa [UInt8.lt_iff_toNat_lt] using hsmall
    have hhigh := hexValue?_hexByte (n := b.toNat / 16) (by omega)
    have hlow := hexValue?_hexByte (n := b.toNat % 16) (by omega)
    have hcode : hex4? 48 48 (hexByte (b.toNat / 16)) (hexByte (b.toNat % 16)) = some b.toNat := by
      have hzero : Bytes.hexValue? 48 = some 0 := rfl
      simp only [hex4?, hzero, hhigh, hlow, bind, Option.bind]
      congr 1
      omega
    have hpoint : ∀ n < 32, codePointReversed n = [UInt8.ofNat n] := by decide
    rw [hb]
    refine (unescape?_code hcode (by omega) seen rest).trans ?_
    rw [hpoint _ hlt, UInt8.ofNat_toNat, List.singleton_append]
  · rw [hb]
    exact unescape?_plain hquote hback hlarge seen rest

theorem unescape?_content (bytes seen : Bytes) :
    unescape? seen (bytes.flatMap escapeByte ++ [Ascii.quote]) = some (seen.reverse ++ bytes) := by
  induction bytes generalizing seen with
  | nil => simp [unescape?]
  | cons b bytes ih =>
    rw [List.flatMap_cons, List.append_assoc, unescape?_escapeByte, ih]
    simp

theorem unquote?_quote (s : String) : unquote? (quote s) = some s := by
  have hopen : ∀ cs, unquote? (Ascii.quote :: cs) = (unescape? [] cs).bind Bytes.toText? :=
    fun _ => rfl
  rw [quote, List.cons_append, hopen, unescape?_content]
  simp

end Reading

end Telemetry.Json
