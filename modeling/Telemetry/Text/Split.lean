/-!
Cutting a text at a separator. `split` keeps every piece, also the empty ones, and joining the pieces
gives the text back; `lines` follows the two line endings LF and CR LF.
-/
namespace Telemetry.Text

/-- The pieces between the occurrences of `sep`; there is always at least one. -/
def split {α : Type} [DecidableEq α] (sep : α) (cs : List α) : List (List α) :=
  cs.foldr (fun c pieces => if c = sep then [] :: pieces else
    match pieces with
    | [] => [[c]]
    | piece :: rest => (c :: piece) :: rest) [[]]

def splitFirst? {α : Type} [DecidableEq α] (sep : α) : List α → Option (List α × List α)
  | [] => none
  | c :: cs =>
    if c = sep then some ([], cs) else (splitFirst? sep cs).map fun (a, b) => (c :: a, b)

def splitLast? {α : Type} [DecidableEq α] (sep : α) (cs : List α) : Option (List α × List α) :=
  (splitFirst? sep cs.reverse).map fun (a, b) => (b.reverse, a.reverse)

def splitAtText? (sep : List Char) : List Char → Option (List Char × List Char)
  | [] => if sep = [] then some ([], []) else none
  | c :: cs =>
    if sep.isPrefixOf (c :: cs) then some ([], (c :: cs).drop sep.length)
    else (splitAtText? sep cs).map fun (a, b) => (c :: a, b)

/-- A line without the carriage return that stood before its line feed. -/
def dropReturn (line : List Char) : List Char :=
  if line.getLast? = some '\r' then line.dropLast else line

/-- The lines of a text: each ends with a line feed, which a carriage return may precede, and what
follows the last line feed is a line only if it is not empty. -/
def lines (cs : List Char) : List (List Char) :=
  let pieces := split '\n' cs
  let last := pieces.getLastD []
  pieces.dropLast.map dropReturn ++ if last = [] then [] else [last]

section
variable {α : Type} [DecidableEq α] (sep : α)

@[simp] theorem split_nil : split sep [] = [[]] := rfl

theorem split_ne_nil (cs : List α) : split sep cs ≠ [] := by
  cases cs with
  | nil => simp
  | cons c cs =>
    simp only [split, List.foldr_cons]
    split
    · simp
    · split <;> simp

@[simp] theorem split_cons_self (cs : List α) : split sep (sep :: cs) = [] :: split sep cs := by
  simp [split]

theorem split_cons_of_ne {c : α} (h : c ≠ sep) (cs : List α) :
    ∃ piece rest, split sep cs = piece :: rest ∧ split sep (c :: cs) = (c :: piece) :: rest := by
  cases hs : split sep cs with
  | nil => exact absurd hs (split_ne_nil sep cs)
  | cons piece rest =>
    refine ⟨piece, rest, rfl, ?_⟩
    have : split sep (c :: cs) = (if c = sep then [] :: split sep cs else
        match split sep cs with
        | [] => [[c]]
        | piece :: rest => (c :: piece) :: rest) := rfl
    rw [this, if_neg h, hs]

theorem split_of_not_mem {cs : List α} (h : sep ∉ cs) : split sep cs = [cs] := by
  induction cs with
  | nil => rfl
  | cons c cs ih =>
    simp only [List.mem_cons, not_or] at h
    obtain ⟨piece, rest, h₁, h₂⟩ := split_cons_of_ne sep (Ne.symm h.1) cs
    rw [ih h.2] at h₁
    cases h₁
    exact h₂

theorem split_append_cons {as : List α} (h : sep ∉ as) (bs : List α) :
    split sep (as ++ sep :: bs) = as :: split sep bs := by
  induction as with
  | nil => simp
  | cons a as ih =>
    simp only [List.mem_cons, not_or] at h
    obtain ⟨piece, rest, h₁, h₂⟩ := split_cons_of_ne sep (Ne.symm h.1) (as ++ sep :: bs)
    rw [ih h.2] at h₁
    cases h₁
    exact h₂

/-- Joining the pieces with the separator gives the text back. -/
theorem intercalate_split (cs : List α) : [sep].intercalate (split sep cs) = cs := by
  induction cs with
  | nil => rfl
  | cons c cs ih =>
    by_cases h : c = sep
    · subst h
      rw [split_cons_self]
      cases hs : split c cs with
      | nil => exact absurd hs (split_ne_nil c cs)
      | cons piece rest => rw [hs] at ih; simpa [List.intercalate, List.intersperse] using ih
    · obtain ⟨piece, rest, h₁, h₂⟩ := split_cons_of_ne sep h cs
      rw [h₂]
      rw [h₁] at ih
      cases rest <;> simpa [List.intercalate, List.intersperse] using ih

end
end Telemetry.Text
