import Mathlib.Data.List.TakeWhile
import Telemetry.Proofs.Json.Grammar

/-!
Finding the end of a value. The machine that looks for it is followed from one mode to another along a
text; a value is a text that leads the machine to its end, and is taken off whatever text it starts. The
blanks around a value make no difference.
-/
namespace Telemetry.Json

/-- The mode of the machine behind a text, if it does not come to an end before. -/
def steps? : Bytes → State → Option State
  | [], s => some s
  | b :: bs, s => if s.isClosed || s.endsBefore (some b) then none else (s.step? b).bind (steps? bs)

theorem steps?_append (as bs : Bytes) (s : State) :
    steps? (as ++ bs) s = (steps? as s).bind (steps? bs) := by
  induction as generalizing s with
  | nil => rfl
  | cons a as ih =>
    simp only [List.cons_append, steps?]
    split
    · rfl
    · cases s.step? a with
      | none => rfl
      | some s' => exact ih s'

theorem steps?_cons_of_some {s s' : State} {b : UInt8} (hopen : s.isClosed = false)
    (hends : s.endsBefore (some b) = false) (h : s.step? b = some s') (bs : Bytes) :
    steps? (b :: bs) s = steps? bs s' := by
  simp [steps?, hopen, hends, h]

/-- Only behind a value or in a number can the machine come to its end. -/
theorem steps?_cons_inside {mode : Mode} {outer : List Bracket} {s : State} {b : UInt8}
    (hnext : mode ≠ .next) (hnumber : ∀ part, mode ≠ .number part)
    (h : State.step? ⟨mode, outer⟩ b = some s) (bs : Bytes) :
    steps? (b :: bs) ⟨mode, outer⟩ = steps? bs s := by
  refine steps?_cons_of_some ?_ ?_ h bs
  · simp [State.isClosed, hnext]
  · cases mode with
    | number part => exact absurd rfl (hnumber part)
    | _ => simp [State.endsBefore]

/-- Something is expected that blanks may stand before. -/
def Mode.isWaiting : Mode → Bool
  | value | firstItem | firstKey | key | colon => true
  | _ => false

theorem steps?_cons_waiting {mode : Mode} {outer : List Bracket} {s : State} {b : UInt8}
    (hmode : mode.isWaiting) (h : State.step? ⟨mode, outer⟩ b = some s) (bs : Bytes) :
    steps? (b :: bs) ⟨mode, outer⟩ = steps? bs s := by
  refine steps?_cons_inside ?_ ?_ h bs
  · rintro rfl
    cases hmode
  · rintro part rfl
    cases hmode

theorem run_append {bs : Bytes} {s s' : State} (h : steps? bs s = some s') (seen rest : Bytes) :
    run s seen (bs ++ rest) = run s' (bs.reverse ++ seen) rest := by
  induction bs generalizing s seen with
  | nil => cases h; rfl
  | cons b bs ih =>
    simp only [steps?] at h
    split at h
    · cases h
    · next hopen =>
      obtain ⟨s₁, hstep, hrest⟩ := Option.bind_eq_some_iff.1 h
      rw [List.cons_append, run, if_neg hopen, hstep]
      simpa using ih hrest (b :: seen)

/-- What stands between values: a comma, a colon or a closing bracket. -/
def isDelimiter (b : UInt8) : Bool :=
  b == Ascii.comma || b == Ascii.colon || b == Ascii.bracketClose || b == Ascii.braceClose

theorem delimiter_cases {b : UInt8} (h : isDelimiter b) :
    b = Ascii.comma ∨ b = Ascii.colon ∨ b = Ascii.bracketClose ∨ b = Ascii.braceClose := by
  simpa [isDelimiter, or_assoc] using h

theorem isBlank_of_isDelimiter {b : UInt8} (h : isDelimiter b) : Ascii.isBlank b = false := by
  rcases delimiter_cases h with rfl | rfl | rfl | rfl <;> decide

theorem step?_of_isDelimiter {b : UInt8} (h : isDelimiter b) (part : NumberPart) :
    part.step? b = none := by
  rcases delimiter_cases h with rfl | rfl | rfl | rfl <;> cases part <;> decide

theorem step?_of_isBlank {b : UInt8} (h : Ascii.isBlank b) (part : NumberPart) :
    part.step? b = none := by
  have hcases : b = Ascii.space ∨ b = Ascii.tab ∨ b = Ascii.lineFeed ∨ b = Ascii.carriageReturn := by
    simpa [Ascii.isBlank, or_assoc] using h
  rcases hcases with rfl | rfl | rfl | rfl <;> cases part <;> decide

theorem skipBlanks_cons {b : UInt8} (h : Ascii.isBlank b = false) (bs : Bytes) :
    skipBlanks (b :: bs) = b :: bs := by
  simp [skipBlanks, h]

theorem Blanks.skipBlanks_append (blanks : Blanks) (bs : Bytes) :
    skipBlanks (blanks.1 ++ bs) = skipBlanks bs :=
  List.dropWhile_append_of_pos blanks.2

theorem skipBlanks_append_of_ne_nil {bs : Bytes} (h : skipBlanks bs ≠ []) (rest : Bytes) :
    skipBlanks (bs ++ rest) = skipBlanks bs ++ rest := by
  rw [skipBlanks, List.dropWhile_append, if_neg (by simpa [skipBlanks] using h)]
  rfl

theorem Blanks.skipBlanks_self (blanks : Blanks) : skipBlanks blanks.1 = [] :=
  List.dropWhile_eq_nil_iff.2 blanks.2

theorem Blanks.isBlank_of_head? {blanks : Blanks} {b : UInt8} (h : b ∈ blanks.1.head?) :
    Ascii.isBlank b :=
  blanks.2 b (List.mem_of_mem_head? h)

/-- A value has been read: what comes next lies behind it. -/
inductive Finished (outer : List Bracket) : State → Prop
  | next : Finished outer ⟨.next, outer⟩
  | number {part : NumberPart} (h : part.isComplete) : Finished outer ⟨.number part, outer⟩

/-- The text of a value: the machine comes to its end, whatever brackets are around it. -/
structure IsValue (v : Bytes) : Prop where
  start : ∃ b bs, v = b :: bs ∧ Ascii.isBlank b = false
  steps : ∀ outer, ∃ s, steps? v ⟨.value, outer⟩ = some s ∧ Finished outer s

section
variable {v rest : Bytes} {outer : List Bracket} {s : State} {b : UInt8}

theorem IsValue.skipBlanks_append (h : IsValue v) (rest : Bytes) :
    skipBlanks (v ++ rest) = v ++ rest := by
  obtain ⟨b, bs, rfl, hb⟩ := h.start
  exact skipBlanks_cons hb _

/-- A value is taken off a text in which nothing follows it that could belong to a number. -/
theorem takeValue?_append_of_step? (h : IsValue v)
    (hrest : ∀ b ∈ rest.head?, ∀ part, NumberPart.step? part b = none) :
    takeValue? (v ++ rest) = some (v, rest) := by
  obtain ⟨s, hs, hfinished⟩ := h.steps []
  rw [takeValue?, h.skipBlanks_append, run_append hs]
  cases hfinished with
  | next => cases rest <;> simp [run, State.isClosed]
  | number hpart =>
    cases rest with
    | nil => simp [run, State.endsBefore, hpart]
    | cons b bs =>
      have hstep := hrest b (by simp)
      simp [run, State.endsBefore, hpart, hstep]

theorem takeValue?_spaced {t : Spaced} (h : IsValue t.text)
    (hrest : ∀ b ∈ rest.head?, isDelimiter b) :
    takeValue? (t.toBytes ++ rest) = some (t.text, t.after.1 ++ rest) := by
  have hnext : ∀ b ∈ (t.after.1 ++ rest).head?, ∀ part, NumberPart.step? part b = none := by
    intro b hb
    rw [List.head?_append, Option.mem_def, Option.or_eq_some_iff] at hb
    rcases hb with hb | ⟨-, hb⟩
    · exact step?_of_isBlank (Blanks.isBlank_of_head? hb)
    · exact step?_of_isDelimiter (hrest b hb)
  have htake := takeValue?_append_of_step? h hnext
  rw [takeValue?, h.skipBlanks_append] at htake
  have happend : t.toBytes ++ rest = t.before.1 ++ (t.text ++ (t.after.1 ++ rest)) := by
    simp [Spaced.toBytes]
  rw [happend, takeValue?, Blanks.skipBlanks_append, h.skipBlanks_append]
  exact htake

theorem document?_spaced {t : Spaced} (h : IsValue t.text) : document? t.toBytes = some t.text := by
  have hnothing : ∀ b ∈ ([] : Bytes).head?, isDelimiter b := by simp
  have htake : takeValue? t.toBytes = some (t.text, t.after.1) := by
    simpa using takeValue?_spaced h hnothing
  simp [document?, htake, Blanks.skipBlanks_self]

theorem document?_append_blanks (h : IsValue v) (blanks : Blanks) :
    document? (v ++ blanks.1) = some v :=
  document?_spaced (t := ⟨.empty, v, blanks⟩) h

theorem document?_of_isValue (h : IsValue v) : document? v = some v := by
  simpa using document?_append_blanks h .empty

theorem isClosed_cons (mode : Mode) (k : Bracket) (outer : List Bracket) :
    State.isClosed ⟨mode, k :: outer⟩ = false := rfl

theorem endsBefore_cons (mode : Mode) (k : Bracket) (outer : List Bracket) (b : Option UInt8) :
    State.endsBefore ⟨mode, k :: outer⟩ b = false := rfl

/-- Inside brackets it makes no difference how a value has ended. -/
theorem steps?_of_finished {k : Bracket} (hs : Finished (k :: outer) s) (hb : isDelimiter b)
    (bs : Bytes) : steps? (b :: bs) s = steps? (b :: bs) ⟨.next, k :: outer⟩ := by
  cases hs with
  | next => rfl
  | number hpart =>
    simp only [steps?, isClosed_cons, endsBefore_cons, State.step?, step?_of_isDelimiter hb, hpart,
      State.afterValue?, isBlank_of_isDelimiter hb]
    rfl

theorem step?_blank_of_finished {k : Bracket} (hs : Finished (k :: outer) s) (hb : Ascii.isBlank b) :
    s.step? b = some ⟨.next, k :: outer⟩ := by
  cases hs with
  | next => simp [State.step?, State.afterValue?, hb]
  | number hpart => simp [State.step?, step?_of_isBlank hb, hpart, State.afterValue?, hb]

theorem steps?_blanks_of_finished {k : Bracket} (hs : Finished (k :: outer) s) {blanks : Bytes}
    (hblanks : ∀ b ∈ blanks, Ascii.isBlank b) :
    ∃ s', steps? blanks s = some s' ∧ Finished (k :: outer) s' := by
  induction blanks generalizing s with
  | nil => exact ⟨s, rfl, hs⟩
  | cons b blanks ih =>
    obtain ⟨hb, hrest⟩ := List.forall_mem_cons.1 hblanks
    have hopen : s.isClosed = false := by cases hs <;> rfl
    have hends : s.endsBefore (some b) = false := by cases hs <;> rfl
    rw [steps?_cons_of_some hopen hends (step?_blank_of_finished hs hb)]
    exact ih .next hrest

theorem steps?_blanks {mode : Mode} (hmode : mode.isWaiting) {blanks : Bytes}
    (hblanks : ∀ b ∈ blanks, Ascii.isBlank b) (bs : Bytes) :
    steps? (blanks ++ bs) ⟨mode, outer⟩ = steps? bs ⟨mode, outer⟩ := by
  induction blanks with
  | nil => rfl
  | cons b blanks ih =>
    obtain ⟨hb, hrest⟩ := List.forall_mem_cons.1 hblanks
    have hstep : State.step? ⟨mode, outer⟩ b = some ⟨mode, outer⟩ := by
      cases mode <;> simp_all [Mode.isWaiting, State.step?]
    rw [List.cons_append, steps?_cons_waiting hmode hstep]
    exact ih hrest

theorem not_isValue_bracketClose (bs : Bytes) : ¬ IsValue (Ascii.bracketClose :: bs) := by
  intro h
  obtain ⟨s, hsteps, -⟩ := h.steps [.array]
  have hnone : State.step? ⟨.value, [.array]⟩ Ascii.bracketClose = none := rfl
  simp [steps?, isClosed_cons, endsBefore_cons, hnone] at hsteps

theorem IsValue.steps_first (h : IsValue v) (k : Bracket) (outer : List Bracket) :
    ∃ s, steps? v ⟨.firstItem, k :: outer⟩ = some s ∧ Finished (k :: outer) s := by
  obtain ⟨s, hs, hfinished⟩ := h.steps (k :: outer)
  refine ⟨s, ?_, hfinished⟩
  obtain ⟨b, bs, rfl, hb⟩ := h.start
  have hstart : State.startValue? ⟨.firstItem, k :: outer⟩ b =
      State.startValue? ⟨.value, k :: outer⟩ b := rfl
  have hclose : (b == Ascii.bracketClose) = false := by
    refine Bool.eq_false_iff.2 fun hclose => ?_
    obtain rfl : b = Ascii.bracketClose := eq_of_beq hclose
    exact not_isValue_bracketClose bs h
  simpa [steps?, isClosed_cons, endsBefore_cons, State.step?, hb, hclose, hstart] using hs

theorem steps?_spaced {t : Spaced} (h : IsValue t.text) {mode : Mode}
    (hmode : mode = .value ∨ mode = .firstItem) (k : Bracket) (outer : List Bracket) :
    ∃ s, steps? t.toBytes ⟨mode, k :: outer⟩ = some s ∧ Finished (k :: outer) s := by
  have hwaiting : mode.isWaiting := by rcases hmode with rfl | rfl <;> rfl
  have htext : ∃ s, steps? t.text ⟨mode, k :: outer⟩ = some s ∧ Finished (k :: outer) s := by
    rcases hmode with rfl | rfl
    · exact h.steps (k :: outer)
    · exact h.steps_first k outer
  obtain ⟨s, hsteps, hs⟩ := htext
  obtain ⟨s', hafter, hs'⟩ := steps?_blanks_of_finished hs t.after.2
  refine ⟨s', ?_, hs'⟩
  rw [Spaced.toBytes, steps?_blanks hwaiting t.before.2, steps?_append, hsteps]
  exact hafter

end

end Telemetry.Json
