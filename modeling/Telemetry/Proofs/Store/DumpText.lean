import Telemetry.Proofs.Metric.Names
import Telemetry.Proofs.Metric.TypedTexts
import Telemetry.Proofs.Store.Totals
import Telemetry.Proofs.Text.Split

/-!
Reading the text of a dump. The line of a metric is read as this metric if there is no colon in the
name; with one it has too many fields, so it is never taken for another metric.
-/
namespace Telemetry

namespace Text
theorem length_split {α : Type} [DecidableEq α] (sep : α) (cs : List α) :
    (split sep cs).length = cs.count sep + 1 := by
  induction cs with
  | nil => rfl
  | cons c cs ih =>
    by_cases hc : c = sep
    · subst hc
      rw [split_cons_self, List.length_cons, ih, List.count_cons_self]
    · obtain ⟨piece, rest, hcs, hsplit⟩ := split_cons_of_ne sep hc cs
      rw [List.count_cons_of_ne hc, ← ih, hsplit, hcs]
      rfl

theorem lines_flatMap {ls : List (List Char)} (h : ∀ cs ∈ ls, '\n' ∉ cs ∧ '\r' ∉ cs) :
    lines (ls.flatMap fun cs => cs ++ ['\n']) = ls := by
  induction ls with
  | nil => rfl
  | cons cs ls ih =>
    obtain ⟨⟨hfeed, hreturn⟩, hls⟩ := List.forall_mem_cons.1 h
    have hlast : cs.getLast? ≠ some '\r' := fun hlast => hreturn (List.mem_of_getLast? hlast)
    rw [List.flatMap_cons, List.append_assoc, List.singleton_append, lines_append_cons hfeed,
      dropReturn_of_getLast?_ne hlast, ih hls]

end Text

namespace Value

theorem isText_text {v : Value} (h : v.isFinite) : v.IsText v.text.toList := by
  have htrim : Text.trim v.text.toList = v.text.toList :=
    Text.trim_of_no_blank fun c hc => Binary64.isBlank_of_isTextChar (isTextChar_of_mem_text h hc)
  cases v with
  | counter n =>
    refine .counter ?_
    rw [htrim, text, String.toList_ofList]
    exact Text.isInt64Literal_int64Digits n
  | gauge x =>
    refine .gauge ?_ h
    rw [htrim, text, String.toList_ofList, Binary64.ofText?_text h]

/-- The text of a value brings a metric from zero to this value. -/
theorem nextValue?_text {v : Value} (h : v.isFinite) :
    Metric.nextValue? (.text v.text) (.zero v.kind) = some v :=
  (Metric.update_eq_ok_iff.1 (Metric.update_zero_text_iff.2 ⟨rfl, isText_text h⟩ :
    (Metric.mk "" (.zero v.kind)).update _ = .ok ⟨"", v⟩)).2

end Value

namespace Dump

def hasColon (m : Metric) : Bool := m.name.toList.contains ':'

theorem toList_line (m : Metric) : (line m).toList =
    m.name.toList ++ ':' :: (m.kind.text.toList ++ ':' :: m.value.text.toList) := by
  simp [line, String.toList_append]

theorem not_mem_value_text {v : Value} (h : v.isFinite) {c : Char}
    (hc : Binary64.isTextChar c = false) : c ∉ v.text.toList := by
  intro hmem
  simp [Value.isTextChar_of_mem_text h hmem] at hc

theorem not_mem_line {m : Metric} (h : m.WellFormed) :
    '\n' ∉ (line m).toList ∧ '\r' ∉ (line m).toList := by
  have hname : ∀ c, isNameRest c = false → c ∉ m.name.toList := by
    intro c hc hmem
    simp [isNameRest_of_mem h.name hmem] at hc
  obtain ⟨-, hfeed, hreturn⟩ := not_mem_kind_text m.kind
  rw [toList_line]
  simp [hname '\n' (by decide), hname '\r' (by decide), hfeed, hreturn,
    not_mem_value_text h.finite (by decide : Binary64.isTextChar '\n' = false),
    not_mem_value_text h.finite (by decide : Binary64.isTextChar '\r' = false)]

theorem lines_render {ms : List Metric} (h : ∀ m ∈ ms, m.WellFormed) :
    Text.lines (render ms).toList = ms.map fun m => (line m).toList := by
  have hbreaks : ∀ cs ∈ ms.map (fun m => (line m).toList), '\n' ∉ cs ∧ '\r' ∉ cs := by
    intro cs hcs
    obtain ⟨m, hm, rfl⟩ := List.mem_map.1 hcs
    exact not_mem_line (h m hm)
  rw [← Text.lines_flatMap hbreaks, render, String.toList_ofList, List.flatMap_map]

theorem readLine_line {m : Metric} (h : m.WellFormed) (hc : hasColon m = false) :
    readLine (line m).toList = .ok m := by
  have hname : ':' ∉ m.name.toList := by simpa [hasColon] using hc
  have hvalue : ':' ∉ m.value.text.toList := not_mem_value_text h.finite (by decide)
  have hentry := IsEntry.fields h.name hname hvalue (Value.isText_text h.finite)
  rw [toList_line]
  exact readLine_eq_ok_iff.2 hentry

/-- A line has one field more than it should for each colon in the name. -/
theorem readLine_line_of_hasColon {m : Metric} (h : m.WellFormed) (hc : hasColon m) :
    readLine (line m).toList = .error (.fields (m.name.toList.count ':' + 3)) := by
  have hlength : (Text.split ':' (line m).toList).length = m.name.toList.count ':' + 3 := by
    have hvalue : m.value.text.toList.count ':' = 0 :=
      List.count_eq_zero.2 (not_mem_value_text h.finite (by decide))
    have hkind : m.kind.text.toList.count ':' = 0 :=
      List.count_eq_zero.2 (not_mem_kind_text m.kind).1
    rw [Text.length_split, toList_line]
    simp [List.count_append, hkind, hvalue]
  have hpos : 0 < m.name.toList.count ':' := by
    rw [List.count_pos_iff]
    simpa [hasColon] using hc
  unfold readLine
  split
  · next hsplit =>
    rw [hsplit] at hlength
    simp only [List.length_cons, List.length_nil] at hlength
    omega
  · rw [hlength]

theorem not_all_isBlank_line (m : Metric) : (line m).toList.all Text.isBlank = false := by
  rw [toList_line]
  have hblank : Text.isBlank ':' = false := by decide
  simp [hblank]

section Read
variable {ms : List Metric}

theorem readLines_lines (h : ∀ m ∈ ms, m.WellFormed) (hc : ∀ m ∈ ms, hasColon m = false) (n : Nat) :
    readLines n (ms.map fun m => (line m).toList) = .ok ms := by
  induction ms generalizing n with
  | nil => rfl
  | cons m ms ih =>
    obtain ⟨hm, hms⟩ := List.forall_mem_cons.1 h
    obtain ⟨hcm, hcms⟩ := List.forall_mem_cons.1 hc
    simp [readLines, not_all_isBlank_line, readLine_line hm hcm, ih hms hcms, Except.map]

/-- A dump is refused at the line of the first metric with a colon in its name. -/
theorem readLines_lines_of_find? (h : ∀ m ∈ ms, m.WellFormed) {m : Metric}
    (hm : ms.find? hasColon = some m) (n : Nat) :
    readLines n (ms.map fun m => (line m).toList) =
      .error (.malformedLine (n + ms.findIdx hasColon)
        (LineError.fields (m.name.toList.count ':' + 3)).message) := by
  induction ms generalizing n with
  | nil => simp at hm
  | cons a ms ih =>
    obtain ⟨ha, hms⟩ := List.forall_mem_cons.1 h
    cases hca : hasColon a with
    | true =>
      obtain rfl : a = m := by simpa [hca] using hm
      simp [readLines, not_all_isBlank_line, readLine_line_of_hasColon ha hca, List.findIdx_cons, hca]
    | false =>
      have hrest := ih hms (by simpa [hca] using hm) (n + 1)
      simp [readLines, not_all_isBlank_line, readLine_line ha hca, hrest, Except.map,
        List.findIdx_cons, hca, Nat.add_assoc, Nat.add_comm 1]

theorem read_render (h : ∀ m ∈ ms, m.WellFormed) (hc : ∀ m ∈ ms, hasColon m = false) :
    read (render ms) = .ok ms := by
  rw [read, lines_render h]
  exact readLines_lines h hc 1

theorem read_render_of_find? (h : ∀ m ∈ ms, m.WellFormed) {m : Metric}
    (hm : ms.find? hasColon = some m) : read (render ms) =
      .error (.malformedLine (ms.findIdx hasColon + 1)
        (LineError.fields (m.name.toList.count ':' + 3)).message) := by
  rw [read, lines_render h, Nat.add_comm]
  exact readLines_lines_of_find? h hm 1

end Read
end Dump
end Telemetry
