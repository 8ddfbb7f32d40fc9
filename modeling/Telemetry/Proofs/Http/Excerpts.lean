import Telemetry.Http.Log

/-!
Bodies as they are quoted. A text that is too long is cut at the last place within the limit where no character
is cut: going back byte by byte passes none of these places, and three bytes are as far as it can go.
-/
namespace Telemetry

namespace Bytes

/-- The first `n` bytes are whole characters. -/
def IsWholeTo (b : Bytes) (n : Nat) : Prop := ∃ t, toText? (b.take n) = some t

@[simp] theorem length_ofText (s : String) : (ofText s).length = s.utf8ByteSize := by simp [ofText]

theorem take_ofText (s : String) (n : Nat) :
    (ofText s).take n = (s.toByteArray.extract 0 n).data.toList := by
  simp [ofText]

theorem exists_toText?_iff {b : Bytes} :
    (∃ t, toText? b = some t) ↔ ByteArray.IsValidUTF8 ⟨b.toArray⟩ := by
  unfold toText? String.fromUTF8?
  by_cases h : ByteArray.IsValidUTF8 ⟨b.toArray⟩
  · simp [h]
  · simp [h]

theorem isValid_iff_isWholeTo {s : String} {n : Nat} (hn : n ≤ s.utf8ByteSize) :
    String.Pos.Raw.IsValid s ⟨n⟩ ↔ (ofText s).IsWholeTo n := by
  have hend : (⟨n⟩ : String.Pos.Raw) ≤ s.rawEndPos := hn
  rw [String.Pos.Raw.isValid_iff_isValidUTF8_extract_zero, and_iff_right hend, IsWholeTo, take_ofText,
    exists_toText?_iff]

end Bytes

namespace Http.Log

section Places
variable {s : String} {k n : Nat}

theorem lastEnd_le (s : String) (n : Nat) : (lastEnd s n).offset.byteIdx ≤ n := by
  induction n with
  | zero => exact Nat.le_refl 0
  | succ n ih =>
    rw [lastEnd]
    split
    · exact Nat.le_refl (n + 1)
    · exact Nat.le_succ_of_le ih

theorem le_lastEnd (hk : k ≤ n) (h : String.Pos.Raw.IsValid s ⟨k⟩) : k ≤ (lastEnd s n).offset.byteIdx := by
  induction n with
  | zero => exact Nat.le_trans hk (Nat.zero_le _)
  | succ n ih =>
    rw [lastEnd]
    split
    · exact hk
    · next hnot =>
      have hne : k ≠ n + 1 := fun heq => hnot (heq ▸ h)
      exact ih (by omega)

theorem utf8ByteSize_ofList_cons (c : Char) (cs : List Char) :
    (String.ofList (c :: cs)).utf8ByteSize = c.utf8Size + (String.ofList cs).utf8ByteSize := by
  rw [String.ofList_cons, String.utf8ByteSize_append, String.utf8ByteSize_singleton]

/-- A character has at most four bytes, so some beginning ends less than four bytes before any place. -/
theorem exists_beginning_near (cs : List Char) (hn : n ≤ (String.ofList cs).utf8ByteSize) :
    ∃ front rest, cs = front ++ rest ∧ (String.ofList front).utf8ByteSize ≤ n ∧
      n < (String.ofList front).utf8ByteSize + 4 := by
  induction cs generalizing n with
  | nil => exact ⟨[], [], rfl, by simp, Nat.lt_of_le_of_lt hn (by simp)⟩
  | cons c cs ih =>
    rw [utf8ByteSize_ofList_cons] at hn
    have hfour : c.utf8Size ≤ 4 := c.utf8Size_le_four
    by_cases hc : n < c.utf8Size
    · exact ⟨[], c :: cs, rfl, by simp, by simp; omega⟩
    · obtain ⟨front, rest, rfl, hle, hlt⟩ := ih (n := n - c.utf8Size) (by omega)
      refine ⟨c :: front, rest, rfl, ?_, ?_⟩
      · rw [utf8ByteSize_ofList_cons]
        omega
      · rw [utf8ByteSize_ofList_cons]
        omega

theorem lt_lastEnd_add (hn : n ≤ s.utf8ByteSize) : n < (lastEnd s n).offset.byteIdx + 4 := by
  obtain ⟨front, rest, hs, hle, hlt⟩ := exists_beginning_near s.toList (by simpa using hn)
  have hvalid : String.Pos.Raw.IsValid s ⟨(String.ofList front).utf8ByteSize⟩ := by
    refine String.Pos.Raw.isValid_iff_exists_append.2 ⟨String.ofList front, String.ofList rest, ?_, rfl⟩
    rw [← String.ofList_append, ← hs, String.ofList_toList]
  have hplace := le_lastEnd hle hvalid
  omega

theorem ofText_sliceTo (p : s.Pos) :
    Bytes.ofText (s.sliceTo p).copy = (Bytes.ofText s).take p.offset.byteIdx := by
  rw [Bytes.take_ofText, Bytes.ofText, String.copy_toByteArray_sliceTo]

end Places

/-- A text quotes a body of which at most `max` bytes are wanted. What is no text is not shown; a text is the
body or, if that is longer, the longest beginning of at most `max` bytes that are whole characters, and dots. -/
inductive Quotes (max : Nat) (b : Bytes) : String → Prop
  | unreadable (h : b.toText? = none) : Quotes max b "<non-utf8 body>"
  | whole {s : String} (h : b.toText? = some s) (hsize : b.length ≤ max) : Quotes max b s
  | cut {n : Nat} {t rest : String} (h : b.toText? = some (t ++ rest)) (hsize : max < b.length)
      (ht : Bytes.toText? (b.take n) = some t) (hmax : n ≤ max) (hnear : max < n + 4)
      (hlongest : ∀ k ≤ max, b.IsWholeTo k → k ≤ n) : Quotes max b (t ++ "...")

theorem quotes_excerpt (max : Nat) (b : Bytes) : Quotes max b (excerpt max b) := by
  unfold excerpt
  split
  · next h => exact .unreadable h
  · next s h =>
    obtain rfl := Bytes.eq_ofText_of_toText? h
    split
    · next hsize =>
      have hsplits := (lastEnd s max).splits
      have hsize' : max ≤ s.utf8ByteSize := Nat.le_of_lt hsize
      have htext : (Bytes.ofText s).toText? =
          some ((s.sliceTo (lastEnd s max)).copy ++ (s.sliceFrom (lastEnd s max)).copy) :=
        h.trans (congrArg some hsplits.eq_append)
      have hstart : Bytes.toText? ((Bytes.ofText s).take (lastEnd s max).offset.byteIdx) =
          some (s.sliceTo (lastEnd s max)).copy := by
        rw [← ofText_sliceTo, Bytes.toText?_ofText]
      refine .cut htext (by simpa using hsize) hstart (lastEnd_le s max) (lt_lastEnd_add hsize')
        fun k hk hwhole => ?_
      exact le_lastEnd hk ((Bytes.isValid_iff_isWholeTo (Nat.le_trans hk hsize')).2 hwhole)
    · next hsize => exact .whole h (by simpa using hsize)

theorem Quotes.unique {max : Nat} {b : Bytes} {q q' : String} (h : Quotes max b q) (h' : Quotes max b q') :
    q = q' := by
  cases h with
  | unreadable h =>
    cases h' with
    | unreadable _ => rfl
    | whole h' _ => cases h.symm.trans h'
    | cut h' _ _ _ _ _ => cases h.symm.trans h'
  | whole h hsize =>
    cases h' with
    | unreadable h' => cases h.symm.trans h'
    | whole h' _ => exact Option.some.inj (h.symm.trans h')
    | cut _ hsize' _ _ _ _ => omega
  | cut h hsize ht hmax _ hlongest =>
    cases h' with
    | unreadable h' => cases h.symm.trans h'
    | whole _ hsize' => omega
    | cut _ _ ht' hmax' _ hlongest' =>
      obtain rfl := Nat.le_antisymm (hlongest' _ hmax ⟨_, ht⟩) (hlongest _ hmax' ⟨_, ht'⟩)
      rw [Option.some.inj (ht.symm.trans ht')]

/-- Of every byte string and for every limit what is quoted is the text, cut as late as the limit and the
characters allow. -/
theorem excerpt_eq_iff {max : Nat} {b : Bytes} {q : String} : excerpt max b = q ↔ Quotes max b q :=
  ⟨fun h => h ▸ quotes_excerpt max b, fun h => (quotes_excerpt max b).unique h⟩

example : excerpt 3 (Bytes.ofText "é€😀") = "é..." := by decide +kernel

end Http.Log
end Telemetry
