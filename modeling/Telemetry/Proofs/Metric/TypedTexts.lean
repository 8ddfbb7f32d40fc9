import Telemetry.Proofs.Metric.Updates

/-!
Typed numbers and their texts. An integer and its text are the same delta and the same reading, although the
one is rounded as an integer and the other as a decimal; a number that is not finite has the text of one that
is not finite either. So an update does with the text of a typed input what it does with the input, and blanks
around the text change nothing but the text that an error quotes.
-/
namespace Telemetry

namespace Binary64
open Decimal

theorem isTextChar_of_mem_int64Digits {n : Int64} {c : Char} (hc : c ∈ Text.int64Digits n) :
    isTextChar c = true := by
  have hdigit : c ∈ Text.natDigits n.toInt.natAbs → isTextChar c = true := by
    intro hc
    simp [isTextChar, isDigit_of_mem_natDigits hc]
  rw [Text.int64Digits, Text.intDigits] at hc
  split at hc
  · rcases List.mem_cons.1 hc with rfl | hc
    · decide
    · exact hdigit hc
  · exact hdigit hc

theorem toBinary64_whole {negative : Bool} {n : Nat} (h : n ≠ 0) :
    (Decimal.mk n 0).toBinary64 negative = ofRatio negative n 1 := by
  simp [toBinary64, h]

theorem ofRatio_zero (negative : Bool) : ofRatio negative 0 1 = zero negative := by
  have hnearest : nearestIndex (scaled 0 * 1) 1 = 0 := nearestIndex_mul_scaled Nat.one_pos 0
  have hscaled : scaled 0 * 1 = 0 * 2 ^ unitExponent := by simp [scaled]
  rw [ofRatio, ← hscaled, hnearest]
  rfl

theorem ofUnsignedText?_natDigits (negative : Bool) (n : Nat) :
    ofUnsignedText? negative (Text.natDigits n) = some (ofRatio negative n 1) := by
  have htext : positionalText [] ⟨n, 0⟩ = Text.natDigits n := by simp [positionalText]
  have hspread : (Decimal.mk n 0).spread = ⟨n, 0⟩ := by simp [spread]
  rw [← htext, ofUnsignedText?_positionalText, hspread]
  by_cases hn : n = 0
  · subst hn
    rw [ofRatio_zero]
    rfl
  · rw [toBinary64_whole hn]

theorem ofText?_int64Digits (n : Int64) : ofText? (Text.int64Digits n) = some (ofInt n.toInt) := by
  rw [Text.int64Digits, Text.intDigits, ofInt]
  split
  · next hneg => simp [ofText?, ofUnsignedText?_natDigits, hneg]
  · next hneg =>
    have hread := ofUnsignedText?_natDigits false n.toInt.natAbs
    obtain ⟨c, cs, hdigits⟩ := List.exists_cons_of_ne_nil (Text.natDigits_ne_nil n.toInt.natAbs)
    have hc : isDigit c = true := isDigit_of_mem_natDigits (n := n.toInt.natAbs) (by simp [hdigits])
    rw [hdigits] at hread ⊢
    have hsign : decide (n.toInt < 0) = false := by simpa using hneg
    rw [hsign]
    unfold ofText?
    split
    · next hcs => cases hcs; exact absurd hc (by decide)
    · next hcs => cases hcs; exact absurd hc (by decide)
    · exact hread

theorem text_of_not_isFinite {x : Binary64} (h : x.isFinite = false) :
    x.text = ['N', 'a', 'N'] ∨ x.text = ['i', 'n', 'f'] ∨ x.text = ['-', 'i', 'n', 'f'] := by
  unfold text write
  split
  · exact .inl rfl
  · cases hn : x.negative <;> simp [h]

/-- Whatever a number is, its text is read as the number if it is finite, and as no finite number if not. -/
theorem filter_ofText?_text (x : Binary64) :
    (ofText? x.text).filter isFinite = (some x).filter isFinite := by
  cases hx : x.isFinite with
  | true => rw [ofText?_text hx]
  | false =>
    have hnone : (some x).filter isFinite = none := by simp [hx]
    rw [hnone]
    rcases text_of_not_isFinite hx with h | h | h <;> rw [h] <;> decide

theorem not_isBlank_of_mem_text (x : Binary64) {c : Char} (hc : c ∈ x.text) : Text.isBlank c = false := by
  cases hx : x.isFinite with
  | true => exact isBlank_of_isTextChar (isTextChar_of_mem_text hx hc)
  | false =>
    have hnan : ∀ c ∈ ['N', 'a', 'N'], Text.isBlank c = false := by simp [Text.isBlank]
    have hinfinity : ∀ c ∈ ['-', 'i', 'n', 'f'], Text.isBlank c = false := by simp [Text.isBlank]
    rcases text_of_not_isFinite hx with h | h | h
    · exact hnan c (h ▸ hc)
    · exact hinfinity c (List.mem_cons_of_mem _ (h ▸ hc))
    · exact hinfinity c (h ▸ hc)

end Binary64

namespace Value

theorem isTextChar_of_mem_text {v : Value} (h : v.isFinite) {c : Char} (hc : c ∈ v.text.toList) :
    Binary64.isTextChar c = true := by
  cases v with
  | counter n =>
    rw [text, String.toList_ofList] at hc
    exact Binary64.isTextChar_of_mem_int64Digits hc
  | gauge x =>
    rw [text, String.toList_ofList] at hc
    exact Binary64.isTextChar_of_mem_text h hc

end Value

namespace Input

/-- A typed input that a metric of some kind is meant for: an integer fits both kinds, and any number, finite
or not, a gauge. -/
inductive Fits : Input → Kind → Prop
  | int (n : Int64) (k : Kind) : Fits (.int n) k
  | float (x : Binary64) : Fits (.float x) .gauge

section
variable {i : Input} {v : Value}

theorem Fits.trim_display {k : Kind} (h : i.Fits k) {before after : List Char}
    (hbefore : before.all Text.isBlank) (hafter : after.all Text.isBlank) :
    Text.trim (before ++ i.display.toList ++ after) = i.display.toList := by
  have hblank : ∀ c ∈ i.display.toList, Text.isBlank c = false := by
    intro c hc
    cases h with
    | int n k =>
      rw [display, String.toList_ofList] at hc
      exact Binary64.isBlank_of_isTextChar (Binary64.isTextChar_of_mem_int64Digits hc)
    | float x =>
      rw [display, String.toList_ofList] at hc
      exact x.not_isBlank_of_mem_text hc
  exact Text.trim_surrounded hbefore hafter (fun c hc => hblank c (List.mem_of_head? hc))
    fun c hc => hblank c (List.mem_of_getLast? hc)

theorem Fits.nextValue?_text (h : i.Fits v.kind) {s : String}
    (hs : Text.trim s.toList = i.display.toList) :
    Metric.nextValue? (.text s) v = Metric.nextValue? i v := by
  cases v with
  | counter total =>
    cases h with
    | int n k =>
      have hread : Text.readInt64 (Text.trim s.toList) = .ok n := by
        rw [hs, display, String.toList_ofList]
        exact Text.readInt64_eq_ok_iff.2 (Text.isInt64Literal_int64Digits n)
      simp [Metric.nextValue?, delta?, hread, Except.toOption]
  | gauge reading =>
    have hreading : reading? (.text s) = reading? i := by
      rw [reading?, number?, hs]
      cases h with
      | int n k => rw [display, String.toList_ofList, Binary64.ofText?_int64Digits]; rfl
      | float x => rw [display, String.toList_ofList, Binary64.filter_ofText?_text]; rfl
    simp [Metric.nextValue?, hreading]

end
end Input

namespace Metric
variable {m : Metric} {i : Input}

theorem update_eq_error_iff {e : MetricError} :
    m.update i = .error e ↔ nextValue? i m.value = none ∧ e = .invalidValue m.kind i.display := by
  unfold update
  cases nextValue? i m.value with
  | some v => simp
  | none => simp [eq_comm]

/-- What a metric does with the same input in two spellings: it takes both, with one result, or it refuses
both and stays as it is. -/
inductive Alike (m : Metric) (i j : Input) : Prop
  | taken {m' : Metric} (hi : m.update i = .ok m') (hj : m.update j = .ok m')
  | refused (hi : m.update i = .error (.invalidValue m.kind i.display))
      (hj : m.update j = .error (.invalidValue m.kind j.display))
      (hstays : updateEach [i, j] m = ([], m))

theorem alike_of_nextValue?_eq {j : Input} (h : nextValue? j m.value = nextValue? i m.value) :
    Alike m i j := by
  cases hi : nextValue? i m.value with
  | some v =>
    have hm : ∀ k, nextValue? k m.value = some v → m.update k = .ok ⟨m.name, v⟩ :=
      fun k hk => update_eq_ok_iff.2 ⟨rfl, hk⟩
    exact .taken (hm i hi) (hm j (h.trans hi))
  | none =>
    have hrefused : ∀ k, nextValue? k m.value = none → m.update k = .error (.invalidValue m.kind k.display) :=
      fun k hk => update_eq_error_iff.2 ⟨hk, rfl⟩
    have hfirst := hrefused i hi
    have hsecond := hrefused j (h.trans hi)
    refine .refused hfirst hsecond ?_
    rw [updateEach_cons_error hfirst, updateEach_cons_error hsecond]
    rfl

/-- An update with the text of a typed input that fits the metric is the update with the input, error and
all; blanks around the text make no difference to whether it is taken and what comes of it. -/
theorem update_display (m : Metric) {i : Input} (hi : i.Fits m.kind) :
    m.update (.text i.display) = m.update i ∧
    ∀ before after : List Char, before.all Text.isBlank → after.all Text.isBlank →
      Alike m i (.text (String.ofList (before ++ i.display.toList ++ after))) := by
  have hnext : ∀ s : String, Text.trim s.toList = i.display.toList →
      nextValue? (.text s) m.value = nextValue? i m.value := fun s hs => hi.nextValue?_text hs
  refine ⟨?_, fun before after hbefore hafter => alike_of_nextValue?_eq (hnext _ ?_)⟩
  · have hself : Text.trim i.display.toList = i.display.toList := by
      have htrim : Text.trim ([] ++ i.display.toList ++ []) = i.display.toList := hi.trim_display rfl rfl
      rwa [List.nil_append, List.append_nil] at htrim
    unfold update
    rw [hnext _ hself]
    rfl
  · rw [String.toList_ofList]
    exact hi.trim_display hbefore hafter

/-- The least integer that a gauge has to round, between a tab and an ideographic space. -/
theorem update_display_roundedInteger :
    (Input.int 9007199254740993).Fits .gauge ∧
    (Metric.mk "load" (.gauge .nan)).update (.text "9007199254740993") =
      .ok ⟨"load", .gauge (.ofInt 9007199254740992)⟩ ∧
    (Metric.mk "load" (.gauge .nan)).update (.text "\t9007199254740993\u3000") =
      .ok ⟨"load", .gauge (.ofInt 9007199254740992)⟩ := by
  have hfits : (Input.int 9007199254740993).Fits .gauge := .int _ .gauge
  have htyped : (Metric.mk "load" (.gauge .nan)).update (.int 9007199254740993) =
      .ok ⟨"load", .gauge (.ofInt 9007199254740992)⟩ := by decide +kernel
  have hdisplay : (Input.int 9007199254740993).display = "9007199254740993" := by decide +kernel
  obtain ⟨htext, hpadded⟩ := update_display ⟨"load", .gauge .nan⟩ hfits
  rw [hdisplay] at htext hpadded
  refine ⟨hfits, htext.trans htyped, ?_⟩
  cases hpadded ['\t'] ['\u3000'] rfl rfl with
  | taken hi hj => exact hj.trans (hi.symm.trans htyped)
  | refused hi hj hstays => cases hi.symm.trans htyped

end Metric
end Telemetry
