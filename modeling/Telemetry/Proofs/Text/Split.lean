import Telemetry.Text.Split

/-!
Where a text is cut. A line ends at a line feed, and a carriage return right before it belongs to the ending;
what stands behind the last line feed is a line of its own, carriage returns and all, if there is anything.
A text is cut in two at the first separator, at the last one, or at the first occurrence of a text: the
pieces and the separator between them are the text again, and they say where the cut is.
-/
namespace Telemetry.Text

inductive IsLines : List Char → List (List Char) → Prop
  | nil : IsLines [] []
  | rest {line : List Char} (hne : line ≠ []) (hline : '\n' ∉ line) : IsLines line [line]
  | feed {line cs : List Char} {ls : List (List Char)} (hline : '\n' ∉ line)
      (hreturn : line.getLast? ≠ some '\r') (hrest : IsLines cs ls) :
      IsLines (line ++ '\n' :: cs) (line :: ls)
  | returnFeed {line cs : List Char} {ls : List (List Char)} (hline : '\n' ∉ line)
      (hrest : IsLines cs ls) : IsLines (line ++ '\r' :: '\n' :: cs) (line :: ls)

section Lines
variable {line cs : List Char} {ls : List (List Char)}

theorem dropReturn_of_getLast?_ne (h : line.getLast? ≠ some '\r') : dropReturn line = line :=
  if_neg h

theorem dropReturn_append (line : List Char) : dropReturn (line ++ ['\r']) = line := by
  simp [dropReturn]

theorem lines_of_not_mem (hne : cs ≠ []) (h : '\n' ∉ cs) : lines cs = [cs] := by
  simp [lines, split_of_not_mem _ h, hne]

theorem lines_append_cons (h : '\n' ∉ line) (cs : List Char) :
    lines (line ++ '\n' :: cs) = dropReturn line :: lines cs := by
  obtain ⟨piece, pieces, hsplit⟩ := List.exists_cons_of_ne_nil (split_ne_nil '\n' cs)
  simp [lines, split_append_cons _ h, hsplit]

theorem IsLines.eq_lines (h : IsLines cs ls) : ls = lines cs := by
  induction h with
  | nil => rfl
  | rest hne hline => exact (lines_of_not_mem hne hline).symm
  | feed hline hreturn _ ih => rw [lines_append_cons hline, dropReturn_of_getLast?_ne hreturn, ih]
  | @returnFeed line cs ls hline _ ih =>
    have hreturn : '\n' ∉ line ++ ['\r'] := by simp [hline]
    have hassoc : line ++ '\r' :: '\n' :: cs = (line ++ ['\r']) ++ '\n' :: cs := by simp
    rw [hassoc, lines_append_cons hreturn, dropReturn_append, ih]

/-- By induction on the length, from one line feed to the next. -/
theorem isLines_lines (cs : List Char) : IsLines cs (lines cs) := by
  by_cases hfeed : '\n' ∈ cs
  · obtain ⟨line, rest, rfl, hline⟩ := List.eq_append_cons_of_mem hfeed
    have ih := isLines_lines rest
    rw [lines_append_cons hline]
    by_cases hreturn : line.getLast? = some '\r'
    · obtain ⟨front, rfl⟩ := List.getLast?_eq_some_iff.1 hreturn
      have hfront : '\n' ∉ front := fun h => hline (List.mem_append_left _ h)
      rw [dropReturn_append, List.append_assoc, List.singleton_append]
      exact .returnFeed hfront ih
    · rw [dropReturn_of_getLast?_ne hreturn]
      exact .feed hline hreturn ih
  · by_cases hne : cs = []
    · subst hne
      exact .nil
    · rw [lines_of_not_mem hne hfeed]
      exact .rest hne hfeed
termination_by cs.length

end Lines

section Character
variable {α : Type} [DecidableEq α] {sep : α} {cs as bs : List α}

theorem splitFirst?_append (h : sep ∉ as) (bs : List α) :
    splitFirst? sep (as ++ sep :: bs) = some (as, bs) := by
  induction as with
  | nil => simp [splitFirst?]
  | cons a as ih =>
    simp only [List.mem_cons, not_or] at h
    simp [splitFirst?, Ne.symm h.1, ih h.2]

theorem splitFirst?_eq_some_iff : splitFirst? sep cs = some (as, bs) ↔ sep ∉ as ∧ cs = as ++ sep :: bs := by
  refine ⟨fun h => ?_, fun ⟨has, hcs⟩ => hcs ▸ splitFirst?_append has bs⟩
  induction cs generalizing as with
  | nil => simp [splitFirst?] at h
  | cons c cs ih =>
    rw [splitFirst?] at h
    split at h
    · next hc =>
      cases h
      exact ⟨List.not_mem_nil, by rw [hc, List.nil_append]⟩
    · next hc =>
      obtain ⟨⟨as', bs'⟩, hrest, heq⟩ := Option.map_eq_some_iff.1 h
      cases heq
      obtain ⟨has, rfl⟩ := ih hrest
      exact ⟨List.not_mem_cons_of_ne_of_not_mem (Ne.symm hc) has, rfl⟩

/-- Whatever stands before the last separator, others among it, is cut off with it. -/
theorem splitLast?_append (h : sep ∉ bs) (as : List α) :
    splitLast? sep (as ++ sep :: bs) = some (as, bs) := by
  have hreverse : (as ++ sep :: bs).reverse = bs.reverse ++ sep :: as.reverse := by simp
  rw [splitLast?, hreverse, splitFirst?_append (by simpa using h)]
  simp

end Character

section Needle
variable {sep as : List Char}

/-- A text is cut at an occurrence of the separator if no other one begins before it. -/
theorem splitAtText?_append (hne : sep ≠ []) (h : ¬ sep <:+: as ++ sep.dropLast) (bs : List Char) :
    splitAtText? sep (as ++ sep ++ bs) = some (as, bs) := by
  induction as with
  | nil =>
    obtain ⟨c, rest, rfl⟩ := List.exists_cons_of_ne_nil hne
    simp [splitAtText?]
  | cons a as ih =>
    have hearlier : ¬ sep <+: a :: (as ++ sep ++ bs) := by
      intro hpre
      have hwhole : a :: as ++ sep.dropLast <+: a :: (as ++ sep ++ bs) := by
        have hlast : sep.dropLast <+: sep := List.dropLast_prefix sep
        have hbs : sep <+: sep ++ bs := List.prefix_append sep bs
        simpa [List.prefix_append_right_inj] using hlast.trans hbs
      have hlength : sep.length ≤ (a :: as ++ sep.dropLast).length := by
        simp
        omega
      exact h (List.prefix_of_prefix_length_le hpre hwhole hlength).isInfix
    have hrest : ¬ sep <:+: as ++ sep.dropLast := fun hinfix => h (List.infix_cons hinfix)
    have hcut := ih hrest
    simp only [List.cons_append, splitAtText?] at hcut ⊢
    rw [if_neg (by simpa using hearlier), hcut]
    rfl

end Needle
end Telemetry.Text
