import Mathlib.Tactic.IntervalCases
import Telemetry.Proofs.Decimal.ReadBack
import Telemetry.Proofs.Json.Scanning
import Telemetry.Proofs.Store.Totals

/-!
JSON numbers. What the grammar takes for a number is one to the machine that looks for the end of a value,
and whatever is written is one by the grammar: no zero stands before another digit, and a point or an
exponent has digits behind it. An integer is read back as it was written.
-/
namespace Telemetry.Json
open Text (digitChar natDigits)

def IsNumber (bs : Bytes) : Prop :=
  ∃ part, bs.foldlM NumberPart.step? .minus = some part ∧ part.isComplete

section Machine
variable {part part' : NumberPart} {outer : List Bracket} {bs : Bytes}

theorem steps?_number (h : bs.foldlM NumberPart.step? part = some part') (outer : List Bracket) :
    steps? bs ⟨.number part, outer⟩ = some ⟨.number part', outer⟩ := by
  induction bs generalizing part with
  | nil => cases h; rfl
  | cons b bs ih =>
    rw [List.foldlM_cons] at h
    obtain ⟨next, hnext, hrest⟩ := Option.bind_eq_some_iff.1 h
    have hstep : State.step? ⟨.number part, outer⟩ b = some ⟨.number next, outer⟩ := by
      simp [State.step?, hnext]
    have hopen : State.isClosed ⟨.number part, outer⟩ = false := by simp [State.isClosed]
    have hends : State.endsBefore ⟨.number part, outer⟩ (some b) = false := by
      simp [State.endsBefore, hnext]
    rw [steps?_cons_of_some hopen hends hstep]
    exact ih hrest

theorem exists_of_isDigit {b : UInt8} (h : Ascii.isDigit b) :
    ∃ d, d < 10 ∧ b = UInt8.ofNat (48 + d) := by
  simp only [Ascii.isDigit, Bool.and_eq_true, decide_eq_true_eq, UInt8.le_iff_toNat_le] at h
  have hlow : 48 ≤ b.toNat := h.1
  have hhigh : b.toNat ≤ 57 := h.2
  refine ⟨b.toNat - 48, by omega, ?_⟩
  rw [Nat.add_sub_cancel' hlow, UInt8.ofNat_toNat]

theorem isDigit_of_minus {b : UInt8} (h : NumberPart.step? .minus b = some part) :
    Ascii.isDigit b = true := by
  simp only [NumberPart.step?] at h
  split at h
  · next hb =>
    obtain rfl : b = 48 := eq_of_beq hb
    decide
  · split at h
    · next hb => exact hb
    · cases h

theorem step?_first {b : UInt8} (h : NumberPart.step? .minus b = some part) (outer : List Bracket) :
    State.step? ⟨.value, outer⟩ b = some ⟨.number part, outer⟩ := by
  obtain ⟨d, hd, rfl⟩ := exists_of_isDigit (isDigit_of_minus h)
  interval_cases d <;> cases h <;> rfl

theorem IsNumber.isValue (h : IsNumber bs) : IsValue bs := by
  obtain ⟨part, hpart, hcomplete⟩ := h
  cases bs with
  | nil => cases hpart; cases hcomplete
  | cons b bs =>
    rw [List.foldlM_cons] at hpart
    obtain ⟨next, hnext, hrest⟩ := Option.bind_eq_some_iff.1 hpart
    refine ⟨⟨b, bs, rfl, ?_⟩, fun outer => ⟨_, ?_, .number hcomplete⟩⟩
    · obtain ⟨d, hd, rfl⟩ := exists_of_isDigit (isDigit_of_minus hnext)
      interval_cases d <;> rfl
    · rw [steps?_cons_inside (by simp) (by simp) (step?_first hnext outer)]
      exact steps?_number hrest outer

theorem IsNumber.isValue_minus (h : IsNumber bs) : IsValue (Ascii.minus :: bs) := by
  obtain ⟨part, hpart, hcomplete⟩ := h
  refine ⟨⟨_, _, rfl, by decide⟩, fun outer => ⟨_, ?_, .number hcomplete⟩⟩
  have hminus : State.step? ⟨.value, outer⟩ Ascii.minus = some ⟨.number .minus, outer⟩ := rfl
  rw [steps?_cons_inside (by simp) (by simp) hminus]
  exact steps?_number hpart outer

end Machine

section Grammar
variable {part : NumberPart} {bs : Bytes}

/-- Digits do not change the part of a number that they are in. -/
theorem foldlM_digits (hpart : part = .whole ∨ part = .fraction ∨ part = .exponent)
    (hbs : ∀ b ∈ bs, Ascii.isDigit b) : bs.foldlM NumberPart.step? part = some part := by
  induction bs with
  | nil => rfl
  | cons b bs ih =>
    obtain ⟨hb, hrest⟩ := List.forall_mem_cons.1 hbs
    have hstep : part.step? b = some part := by
      rcases hpart with rfl | rfl | rfl <;> simp [NumberPart.step?, hb]
    rw [List.foldlM_cons, hstep]
    exact ih hrest

theorem foldlM_isDigits {part' : NumberPart} (hpart : part' = .whole ∨ part' = .fraction ∨ part' = .exponent)
    (hfirst : ∀ b, Ascii.isDigit b → part.step? b = some part') (h : IsDigits bs) :
    bs.foldlM NumberPart.step? part = some part' := by
  obtain ⟨hne, hbs⟩ := h
  cases bs with
  | nil => exact absurd rfl hne
  | cons b bs =>
    obtain ⟨hb, hrest⟩ := List.forall_mem_cons.1 hbs
    rw [List.foldlM_cons, hfirst b hb]
    exact foldlM_digits hpart hrest

theorem IsWhole.foldlM (h : IsWhole bs) :
    ∃ part, (part = .zero ∨ part = .whole) ∧ bs.foldlM NumberPart.step? .minus = some part := by
  cases h with
  | zero => exact ⟨.zero, .inl rfl, rfl⟩
  | @positive b bs hdigit hpos hbs =>
    have hfirst : NumberPart.minus.step? b = some .whole := by
      have hne : (b == 48) = false := beq_eq_false_iff_ne.2 hpos
      simp [NumberPart.step?, hne, hdigit]
    refine ⟨.whole, .inr rfl, ?_⟩
    rw [List.foldlM_cons, hfirst]
    exact foldlM_digits (.inl rfl) hbs

theorem IsFraction.foldlM (h : IsFraction bs) (hpart : part = .zero ∨ part = .whole) :
    ∃ part', (part' = .zero ∨ part' = .whole ∨ part' = .fraction) ∧
      bs.foldlM NumberPart.step? part = some part' := by
  cases h with
  | none => exact ⟨part, hpart.imp_right .inl, rfl⟩
  | point hds =>
    have hpoint : part.step? Ascii.point = some .point := by rcases hpart with rfl | rfl <;> rfl
    refine ⟨.fraction, .inr (.inr rfl), ?_⟩
    rw [List.foldlM_cons, hpoint]
    exact foldlM_isDigits (.inr (.inl rfl)) (fun b hb => by simp [NumberPart.step?, hb]) hds

theorem IsExponent.foldlM (h : IsExponent bs) (hpart : part = .zero ∨ part = .whole ∨ part = .fraction) :
    ∃ part', part'.isComplete ∧ bs.foldlM NumberPart.step? part = some part' := by
  cases h with
  | none => exact ⟨part, by rcases hpart with rfl | rfl | rfl <;> rfl, rfl⟩
  | @mark e sign ds he hsign hds =>
    have hmark : part.step? e = some .mark := by
      rcases he with rfl | rfl <;> rcases hpart with rfl | rfl | rfl <;> rfl
    have hbare : ds.foldlM NumberPart.step? .mark = some .exponent :=
      foldlM_isDigits (.inr (.inr rfl)) (fun b hb => by simp [NumberPart.step?, hb]) hds
    have hsigned : ds.foldlM NumberPart.step? .sign = some .exponent :=
      foldlM_isDigits (.inr (.inr rfl)) (fun b hb => by simp [NumberPart.step?, hb]) hds
    refine ⟨.exponent, rfl, ?_⟩
    rw [List.foldlM_cons, hmark]
    rcases hsign with rfl | rfl | rfl
    · exact hbare
    · exact hsigned
    · exact hsigned

theorem IsMagnitude.isNumber (h : IsMagnitude bs) : IsNumber bs := by
  obtain ⟨hwhole, hfraction, hexponent⟩ := h
  obtain ⟨p₁, hp₁, hfold₁⟩ := hwhole.foldlM
  obtain ⟨p₂, hp₂, hfold₂⟩ := hfraction.foldlM hp₁
  obtain ⟨p₃, hcomplete, hfold₃⟩ := hexponent.foldlM hp₂
  refine ⟨p₃, ?_, hcomplete⟩
  simp only [List.foldlM_append, hfold₁, hfold₂, bind, Option.bind_some]
  exact hfold₃

end Grammar

section Digits
variable {cs ds : List Char}

theorem isDigit_ofChar {c : Char} (h : Decimal.isDigit c) : Ascii.isDigit (Ascii.ofChar c) = true := by
  obtain ⟨d, hd, rfl⟩ := Decimal.exists_digitChar h
  have hall : ∀ d < 10, Ascii.isDigit (Ascii.ofChar (digitChar d)) = true := by decide
  exact hall d hd

theorem isDigit_ofChars (hcs : ∀ c ∈ cs, Decimal.isDigit c) :
    ∀ b ∈ Ascii.ofChars cs, Ascii.isDigit b := by
  intro b hb
  obtain ⟨c, hc, rfl⟩ := List.mem_map.1 hb
  exact isDigit_ofChar (hcs c hc)

theorem isDigits_ofChars (hne : cs ≠ []) (hcs : ∀ c ∈ cs, Decimal.isDigit c) :
    IsDigits (Ascii.ofChars cs) :=
  ⟨by simpa [Ascii.ofChars] using hne, isDigit_ofChars hcs⟩

theorem isDigits_natDigits (n : Nat) : IsDigits (Ascii.ofChars (natDigits n)) :=
  isDigits_ofChars (Text.natDigits_ne_nil n) fun _ hc => Decimal.isDigit_of_mem_natDigits hc

theorem exists_natDigits {n : Nat} (hn : n ≠ 0) :
    ∃ d cs, natDigits n = digitChar d :: cs ∧ 0 < d ∧ d < 10 ∧ ∀ c ∈ cs, Decimal.isDigit c := by
  induction n using Nat.strongRecOn with
  | _ n ih =>
    by_cases hsmall : n < 10
    · exact ⟨n, [], by rw [natDigits, if_pos hsmall], by omega, hsmall, by simp⟩
    · obtain ⟨d, cs, hd, hpos, hlt, hcs⟩ := ih (n / 10) (by omega) (by omega)
      refine ⟨d, cs ++ [digitChar (n % 10)], ?_, hpos, hlt, ?_⟩
      · rw [natDigits, if_neg hsmall, hd, List.cons_append]
      · intro c hc
        rcases List.mem_append.1 hc with hc | hc
        · exact hcs c hc
        · rw [List.mem_singleton.1 hc]
          exact Decimal.isDigit_digitChar (Nat.mod_lt n (by decide))

/-- A number that is not zero starts with a digit that is not zero, however many of its digits stand
before the point. -/
theorem isWhole_take_natDigits {n k : Nat} (hn : n ≠ 0) (hk : 0 < k) (ds : List Char)
    (hds : ∀ c ∈ ds, Decimal.isDigit c) : IsWhole (Ascii.ofChars ((natDigits n).take k ++ ds)) := by
  obtain ⟨d, cs, hd, hpos, hlt, hcs⟩ := exists_natDigits hn
  obtain ⟨k, rfl⟩ : ∃ j, k = j + 1 := ⟨k - 1, by omega⟩
  have hne : ∀ d < 10, 0 < d → Ascii.ofChar (digitChar d) ≠ Ascii.zero := by decide
  rw [hd, List.take_succ_cons, List.cons_append, Ascii.ofChars, List.map_cons]
  refine .positive (isDigit_ofChar (Decimal.isDigit_digitChar hlt)) (hne d hlt hpos) ?_
  refine isDigit_ofChars fun c hc => ?_
  exact (List.mem_append.1 hc).elim (fun hc => hcs c (List.mem_of_mem_take hc)) (hds c)

theorem isWhole_natDigits (n : Nat) : IsWhole (Ascii.ofChars (natDigits n)) := by
  by_cases hn : n = 0
  · rw [hn, natDigits, if_pos (by decide)]
    exact .zero
  · have hwhole := isWhole_take_natDigits (k := (natDigits n).length) hn
      (List.length_pos_iff.2 (Text.natDigits_ne_nil n)) [] (by simp)
    rwa [List.append_nil, List.take_length] at hwhole

theorem isMagnitude_natDigits (n : Nat) : IsMagnitude (Ascii.ofChars (natDigits n)) := by
  have hmagnitude := IsMagnitude.mk (isWhole_natDigits n) .none .none
  rwa [List.append_nil, List.append_nil] at hmagnitude

end Digits

section Integers

theorem ofText?_digits {bs : Bytes} (hbs : ∀ b ∈ bs, Ascii.isDigit b) (hne : bs ≠ []) :
    Numeral.ofText? bs = some ⟨false, bs, none, none⟩ ∧
      Numeral.ofText? (Ascii.minus :: bs) = some ⟨true, bs, none, none⟩ := by
  have htake : bs.takeWhile Ascii.isDigit = bs := List.takeWhile_eq_self_iff.2 hbs
  have hdrop : bs.dropWhile Ascii.isDigit = [] := List.dropWhile_eq_nil_iff.2 hbs
  have hminus : ∀ rest, bs ≠ Ascii.minus :: rest := by
    rintro rest rfl
    exact absurd (hbs Ascii.minus (by simp)) (by decide)
  constructor
  · unfold Numeral.ofText?
    split
    next negative cs hsign =>
      split at hsign
      · exact absurd rfl (hminus _)
      · obtain ⟨rfl, rfl⟩ := Prod.mk.inj hsign
        simp [htake, hdrop, hne, Numeral.exponent?]
  · unfold Numeral.ofText?
    split
    next negative cs hsign =>
      obtain ⟨rfl, rfl⟩ := Prod.mk.inj hsign
      simp [htake, hdrop, hne, Numeral.exponent?]

theorem digitsToNat_ofChars {cs : List Char} (hcs : ∀ c ∈ cs, Decimal.isDigit c) :
    Ascii.digitsToNat (Ascii.ofChars cs) = Decimal.digitsToNat cs := by
  have hdigit : ∀ c, Decimal.isDigit c → (Ascii.ofChar c).toNat = c.toNat := by
    intro c hc
    obtain ⟨d, hd, rfl⟩ := Decimal.exists_digitChar hc
    have hall : ∀ d < 10, (Ascii.ofChar (digitChar d)).toNat = (digitChar d).toNat := by decide
    exact hall d hd
  rw [Ascii.digitsToNat, Decimal.digitsToNat, Ascii.ofChars, List.foldl_map]
  generalize 0 = acc
  induction cs generalizing acc with
  | nil => rfl
  | cons c cs ih =>
    obtain ⟨hc, hrest⟩ := List.forall_mem_cons.1 hcs
    rw [List.foldl_cons, List.foldl_cons, hdigit c hc]
    exact ih hrest _

theorem writeInt64_eq (n : Int64) : writeInt64 n =
    if n.toInt < 0 then Ascii.minus :: Ascii.ofChars (natDigits n.toInt.natAbs)
    else Ascii.ofChars (natDigits n.toInt.natAbs) := by
  rw [writeInt64, Text.int64Digits, Text.intDigits]
  split <;> rfl

theorem isToken_writeInt64 (n : Int64) : IsToken (writeInt64 n) := by
  rw [writeInt64_eq]
  split
  · exact .minus (isMagnitude_natDigits _)
  · exact .number (isMagnitude_natDigits _)

theorem readInt64?_writeInt64 (n : Int64) : readInt64? (writeInt64 n) = some n := by
  obtain ⟨hne, hdigits⟩ := isDigits_natDigits n.toInt.natAbs
  have hnat : Ascii.digitsToNat (Ascii.ofChars (natDigits n.toInt.natAbs)) = n.toInt.natAbs := by
    rw [digitsToNat_ofChars fun c hc => Decimal.isDigit_of_mem_natDigits hc,
      Decimal.digitsToNat_natDigits]
  obtain ⟨hplain, hminus⟩ := ofText?_digits hdigits hne
  have hint : Text.int64? n.toInt = some n := Text.int64?_eq_some_iff.2 rfl
  rw [writeInt64_eq]
  split
  · next hneg =>
    have htoInt : Numeral.toInt? ⟨true, Ascii.ofChars (natDigits n.toInt.natAbs), none, none⟩ =
        some n.toInt := by
      simp only [Numeral.toInt?, hnat]
      rw [if_neg (by simp; omega), if_pos trivial]
      congr 1
      omega
    simp [readInt64?, hminus, htoInt, hint]
  · next hneg =>
    have htoInt : Numeral.toInt? ⟨false, Ascii.ofChars (natDigits n.toInt.natAbs), none, none⟩ =
        some n.toInt := by
      simp only [Numeral.toInt?, hnat]
      rw [if_neg (by simp), if_neg (by simp)]
      congr 1
      omega
    simp [readInt64?, hplain, htoInt, hint]

end Integers

section Fractions
open Decimal

theorem isFraction_ofChars {cs : List Char} (hne : cs ≠ []) (hcs : ∀ c ∈ cs, Decimal.isDigit c) :
    IsFraction (Ascii.ofChars ('.' :: cs)) :=
  .point (isDigits_ofChars hne hcs)

theorem isMagnitude_ofChars {whole fraction exponent : List Char} (hwhole : IsWhole (Ascii.ofChars whole))
    (hfraction : IsFraction (Ascii.ofChars fraction)) (hexponent : IsExponent (Ascii.ofChars exponent)) :
    IsMagnitude (Ascii.ofChars (whole ++ fraction ++ exponent)) := by
  rw [Ascii.ofChars, List.append_assoc, List.map_append, List.map_append]
  exact .mk hwhole hfraction hexponent

theorem isMagnitude_ofChars_append {whole fraction : List Char} (hwhole : IsWhole (Ascii.ofChars whole))
    (hfraction : IsFraction (Ascii.ofChars fraction)) :
    IsMagnitude (Ascii.ofChars (whole ++ fraction)) := by
  rw [← List.append_nil (whole ++ fraction)]
  exact isMagnitude_ofChars hwhole hfraction .none

theorem isMagnitude_positionalText {d : Decimal} (h : d.coefficient = 0 → d.exponent = 0) :
    IsMagnitude (Ascii.ofChars (positionalText ['.', '0'] d)) := by
  obtain ⟨c, e⟩ := d
  have hdigit : ∀ a ∈ natDigits c, Decimal.isDigit a := fun a ha => Decimal.isDigit_of_mem_natDigits ha
  have hsuffix : IsFraction (Ascii.ofChars ['.', '0']) :=
    isFraction_ofChars (by simp) (List.forall_mem_singleton.2 rfl)
  simp only [positionalText]
  split
  · next he =>
    refine isMagnitude_ofChars_append ?_ hsuffix
    by_cases hc : c = 0
    · have hexp : e = 0 := h hc
      rw [hexp, Int.toNat_zero, List.replicate_zero, List.append_nil]
      exact isWhole_natDigits c
    · have hwhole := isWhole_take_natDigits (k := (natDigits c).length) hc
        (List.length_pos_iff.2 (Text.natDigits_ne_nil c)) _
        (fun a ha => isDigit_of_mem_zeros (k := e.toNat) ha)
      rwa [List.take_length] at hwhole
  · next he =>
    have hc : c ≠ 0 := fun hc => he (h hc ▸ Int.le_refl 0)
    split
    · next hp =>
      have hwhole := isWhole_take_natDigits (k := (((natDigits c).length : Int) + e).toNat) hc
        (by omega) [] (by simp)
      rw [List.append_nil] at hwhole
      refine isMagnitude_ofChars_append hwhole (isFraction_ofChars ?_ ?_)
      · simp only [ne_eq, List.drop_eq_nil_iff]
        omega
      · exact fun a ha => hdigit a (List.mem_of_mem_drop ha)
    · next hp =>
      have hzero : IsWhole (Ascii.ofChars ['0']) := .zero
      refine isMagnitude_ofChars_append hzero (isFraction_ofChars ?_ ?_)
      · simp [Text.natDigits_ne_nil]
      · exact fun a ha => (List.mem_append.1 ha).elim isDigit_of_mem_zeros (hdigit a)

theorem isMagnitude_exponentText {d : Decimal} (h : d.coefficient ≠ 0) :
    IsMagnitude (Ascii.ofChars (exponentText ['+'] d)) := by
  obtain ⟨c, e⟩ := d
  have hwhole := isWhole_take_natDigits (k := 1) h (by decide) [] (by simp)
  rw [List.append_nil] at hwhole
  simp only [exponentText]
  refine isMagnitude_ofChars hwhole ?_ ?_
  · split
    · exact .none
    · next hfraction =>
      exact isFraction_ofChars hfraction fun a ha =>
        Decimal.isDigit_of_mem_natDigits (List.mem_of_mem_drop ha)
  · generalize ((natDigits c).length : Int) + e - 1 = power
    have hdigits := isDigits_natDigits power.natAbs
    split
    · exact .mark (.inl rfl) (.inr (.inr rfl)) hdigits
    · exact .mark (.inl rfl) (.inr (.inl rfl)) hdigits

theorem isMagnitude_write {d : Decimal} (h : d.coefficient = 0 → d.exponent = 0) :
    IsMagnitude (Ascii.ofChars (Layout.tagged.write d)) := by
  rw [Layout.write]
  split
  · exact isMagnitude_positionalText h
  · next hlayout =>
    refine isMagnitude_exponentText fun hc => hlayout ?_
    rw [hc, h hc, natDigits]
    rfl

/-- Only zero has no digits. -/
theorem exponent_shortest (tie : Tie) {n : Nat} (hn : n < Binary64.infinityIndex)
    (h : (shortest tie n).coefficient = 0) : (shortest tie n).exponent = 0 := by
  have hread := toBinary64_shortest_false tie hn
  rw [toBinary64, if_pos h] at hread
  have hzero : n = 0 := by
    have hindex := congrArg Binary64.index hread
    simp only [Binary64.zero, Binary64.ofIndex] at hindex
    omega
  rw [shortest, if_pos hzero]

theorem isToken_writeBinary64 {x : Binary64} (h : x.isFinite) : IsToken (writeBinary64 x) := by
  have hx : x.index < Binary64.infinityIndex := by simpa [Binary64.isFinite] using h
  have hmagnitude := isMagnitude_write (exponent_shortest .even hx)
  rw [writeBinary64, if_pos h, Binary64.write, Binary64.isNaN_eq_false h, h]
  cases x.negative with
  | false => exact .number hmagnitude
  | true => exact .minus hmagnitude

end Fractions

/-- No number is written like the word for an absent value. -/
theorem readOptional?_of_read {α : Type} {read? : Bytes → Option α} (hnull : read? null = none)
    {bs : Bytes} {a : α} (h : read? bs = some a) : readOptional? read? bs = some (some a) := by
  have hne : bs ≠ null := by
    rintro rfl
    simp [hnull] at h
  simp [readOptional?, hne, h]

end Telemetry.Json
