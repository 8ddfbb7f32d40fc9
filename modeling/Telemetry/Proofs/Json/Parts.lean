import Telemetry.Proofs.Json.Strings

/-!
The parts of arrays and objects. The machine comes to its end behind the closing bracket, and between the
brackets the items are cut at the commas, each of them ending where its value ends. Blanks may stand
around every item, around the colon of a member, and between brackets that have nothing else in them.
-/
namespace Telemetry.Json

namespace Bracket

def opening : Bracket → UInt8
  | array => Ascii.bracketOpen
  | object => Ascii.braceOpen

def closing : Bracket → UInt8
  | array => Ascii.bracketClose
  | object => Ascii.braceClose

def first : Bracket → Mode
  | array => .firstItem
  | object => .firstKey

def further : Bracket → Mode
  | array => .value
  | object => .key

theorem isDelimiter_closing (k : Bracket) : isDelimiter k.closing := by cases k <;> decide

theorem closing_ne_comma (k : Bracket) : k.closing ≠ Ascii.comma := by cases k <;> decide

theorem isWaiting_of_first_or_further {k : Bracket} {mode : Mode}
    (h : mode = k.first ∨ mode = k.further) : mode.isWaiting := by
  cases k <;> rcases h with rfl | rfl <;> rfl

end Bracket

theorem commaSeparated_cons (v : Bytes) (vs : List Bytes) :
    commaSeparated (v :: vs) = v ++ vs.flatMap (Ascii.comma :: ·) := by
  induction vs generalizing v with
  | nil => simp [commaSeparated, List.intercalate]
  | cons w vs ih =>
    have hrec : commaSeparated (v :: w :: vs) = v ++ Ascii.comma :: commaSeparated (w :: vs) := by
      simp [commaSeparated, List.intercalate, List.intersperse]
    rw [hrec, ih w]
    simp

section Machine

/-- The text of an item: wherever one is expected between the brackets, it leads the machine to the end of
a value. -/
def IsItem (k : Bracket) (item : Bytes) : Prop :=
  ∀ mode, mode = k.first ∨ mode = k.further → ∀ outer,
    ∃ s, steps? item ⟨mode, k :: outer⟩ = some s ∧ Finished (k :: outer) s

variable {k : Bracket} {items : List Bytes} {outer : List Bracket}

theorem steps?_items (h : ∀ item ∈ items, IsItem k item) {s : State} (hs : Finished (k :: outer) s) :
    steps? (items.flatMap (Ascii.comma :: ·) ++ [k.closing]) s = some ⟨.next, outer⟩ := by
  induction items generalizing s with
  | nil =>
    rw [List.flatMap_nil, List.nil_append, steps?_of_finished hs k.isDelimiter_closing]
    cases k <;> rfl
  | cons item items ih =>
    obtain ⟨hitem, hrest⟩ := List.forall_mem_cons.1 h
    obtain ⟨s', hsteps, hs'⟩ := hitem k.further (.inr rfl) outer
    have hcomma : State.step? ⟨.next, k :: outer⟩ Ascii.comma = some ⟨k.further, k :: outer⟩ := by
      cases k <;> rfl
    rw [List.flatMap_cons, List.append_assoc, List.cons_append, steps?_of_finished hs (by decide),
      steps?_cons_of_some rfl rfl hcomma, steps?_append, hsteps]
    exact ih hrest hs'

theorem steps?_opening (k : Bracket) (outer : List Bracket) (bs : Bytes) :
    steps? (k.opening :: bs) ⟨.value, outer⟩ = steps? bs ⟨k.first, k :: outer⟩ := by
  have hopen : State.step? ⟨.value, outer⟩ k.opening = some ⟨k.first, k :: outer⟩ := by
    cases k <;> rfl
  exact steps?_cons_waiting rfl hopen bs

theorem steps?_closing (k : Bracket) (outer : List Bracket) :
    steps? [k.closing] ⟨k.first, k :: outer⟩ = some ⟨.next, outer⟩ := by
  cases k <;> rfl

theorem isValue_items (h : ∀ item ∈ items, IsItem k item) :
    IsValue (k.opening :: commaSeparated items ++ [k.closing]) := by
  refine ⟨⟨_, _, rfl, by cases k <;> decide⟩, fun outer => ⟨⟨.next, outer⟩, ?_, .next⟩⟩
  rw [List.cons_append, steps?_opening]
  cases items with
  | nil => exact steps?_closing k outer
  | cons item items =>
    obtain ⟨hitem, hrest⟩ := List.forall_mem_cons.1 h
    obtain ⟨s, hsteps, hs⟩ := hitem k.first (.inl rfl) outer
    rw [commaSeparated_cons, List.append_assoc, steps?_append, hsteps]
    exact steps?_items hrest hs

theorem isValue_blanks (k : Bracket) (inside : Blanks) :
    IsValue (k.opening :: (inside.1 ++ [k.closing])) := by
  refine ⟨⟨_, _, rfl, by cases k <;> decide⟩, fun outer => ⟨⟨.next, outer⟩, ?_, .next⟩⟩
  rw [steps?_opening, steps?_blanks (k.isWaiting_of_first_or_further (.inl rfl)) inside.2]
  exact steps?_closing k outer

theorem isItem_spaced {t : Spaced} (h : IsValue t.text) : IsItem .array t.toBytes :=
  fun _ hmode outer => steps?_spaced h hmode.symm .array outer

theorem isItem_member {m : Member} (hkey : IsString m.key.text) (hvalue : IsValue m.layout.text) :
    IsItem .object m.toBytes := by
  intro mode hmode outer
  obtain ⟨s, hsteps, hs⟩ := steps?_spaced hvalue (.inl rfl) .object outer
  refine ⟨s, ?_, hs⟩
  have hwaiting := Bracket.isWaiting_of_first_or_further hmode
  have hquote : State.step? ⟨mode, .object :: outer⟩ Ascii.quote =
      some ⟨.string true, .object :: outer⟩ := by rcases hmode with rfl | rfl <;> rfl
  have hcolon : State.step? ⟨.colon, .object :: outer⟩ Ascii.colon =
      some ⟨.value, .object :: outer⟩ := rfl
  rw [Member.toBytes, Spaced.toBytes, List.append_assoc, List.append_assoc,
    steps?_blanks hwaiting m.key.before.2, steps?_append, steps?_string hkey hwaiting hquote]
  simp only [Option.bind_some, if_true]
  rw [steps?_blanks rfl m.key.after.2, steps?_cons_waiting rfl hcolon]
  exact hsteps

end Machine

section Items
variable {α β : Type} {take : Bytes → Option (α × Bytes)} {text : β → Bytes} {part : β → α} {k : Bracket}

/-- What takes one item off the text of a list: it ends before what stands between values, blanks left
aside, and no item starts with the closing byte. -/
structure Takes (take : Bytes → Option (α × Bytes)) (close : UInt8) (text : Bytes) (part : α) : Prop where
  take : ∀ rest, (∀ b ∈ rest.head?, isDelimiter b) →
    ∃ blanks : Blanks, take (text ++ rest) = some (part, blanks.1 ++ rest)
  start : ∃ b bs, skipBlanks text = b :: bs ∧ b ≠ close

theorem takeItems?_append {b : β} {bs : List β} (seen : List α) {fuel : Nat}
    (hb : Takes take k.closing (text b) (part b))
    (hbs : ∀ b ∈ bs, Takes take k.closing (text b) (part b)) (hfuel : bs.length < fuel) :
    takeItems? take k.closing fuel seen
      (text b ++ ((bs.map text).flatMap (Ascii.comma :: ·) ++ [k.closing])) =
        some (seen.reverse ++ part b :: bs.map part, []) := by
  obtain ⟨fuel, rfl⟩ : ∃ n, fuel = n + 1 := ⟨fuel - 1, by omega⟩
  induction bs generalizing b seen fuel with
  | nil =>
    obtain ⟨blanks, htake⟩ := hb.take [k.closing] (by simpa using k.isDelimiter_closing)
    have hskip : skipBlanks (blanks.1 ++ [k.closing]) = [k.closing] := by
      rw [Blanks.skipBlanks_append]
      exact skipBlanks_cons (isBlank_of_isDelimiter k.isDelimiter_closing) []
    simp [takeItems?, htake, hskip, k.closing_ne_comma]
  | cons c bs ih =>
    obtain ⟨hc, hrest⟩ := List.forall_mem_cons.1 hbs
    obtain ⟨fuel, rfl⟩ : ∃ n, fuel = n + 1 := ⟨fuel - 1, by rw [List.length_cons] at hfuel; omega⟩
    have hstep := ih (part b :: seen) hc hrest fuel (by simpa using hfuel)
    simp only [List.map_cons, List.flatMap_cons, List.cons_append, List.append_assoc]
    obtain ⟨blanks, htake⟩ := hb.take (Ascii.comma ::
      (text c ++ ((bs.map text).flatMap (Ascii.comma :: ·) ++ [k.closing]))) (by simp [isDelimiter])
    have hskip : ∀ rest, skipBlanks (blanks.1 ++ Ascii.comma :: rest) = Ascii.comma :: rest := by
      intro rest
      rw [Blanks.skipBlanks_append]
      exact skipBlanks_cons (by decide) rest
    rw [takeItems?, htake]
    simp only [bind, Option.bind, hskip]
    simpa using hstep

theorem length_le_flatMap (vs : List Bytes) :
    vs.length ≤ (vs.flatMap (Ascii.comma :: ·)).length := by
  induction vs with
  | nil => simp
  | cons v vs ih =>
    simp only [List.flatMap_cons, List.length_append, List.length_cons]
    omega

theorem items?_commaSeparated {bs : List β} (hbs : ∀ b ∈ bs, Takes take k.closing (text b) (part b)) :
    items? take k.opening k.closing (k.opening :: commaSeparated (bs.map text) ++ [k.closing]) =
      some (bs.map part) := by
  cases bs with
  | nil =>
    have hskip : skipBlanks [k.closing] = [k.closing] :=
      skipBlanks_cons (isBlank_of_isDelimiter k.isDelimiter_closing) []
    simp [items?, commaSeparated, List.intercalate, hskip]
  | cons b bs =>
    obtain ⟨hb, hrest⟩ := List.forall_mem_cons.1 hbs
    obtain ⟨c, cs, hstart, hne⟩ := hb.start
    generalize htext : text b ++ ((bs.map text).flatMap (Ascii.comma :: ·) ++ [k.closing]) = whole
    have hfuel : bs.length < whole.length := by
      have hlen := length_le_flatMap (bs.map text)
      rw [List.length_map] at hlen
      simp only [← htext, List.length_append, List.length_singleton]
      omega
    have htake := takeItems?_append [] hb hrest hfuel
    have hskip : ∃ cs, skipBlanks whole = c :: cs := by
      rw [← htext, skipBlanks_append_of_ne_nil (by simp [hstart]), hstart]
      exact ⟨_, rfl⟩
    obtain ⟨cs', hskip⟩ := hskip
    rw [htext] at htake
    rw [List.map_cons, commaSeparated_cons, List.cons_append, List.append_assoc, htext]
    simp [items?, hskip, hne, htake]

theorem items?_blanks (take : Bytes → Option (α × Bytes)) (k : Bracket) (inside : Blanks) :
    items? take k.opening k.closing (k.opening :: (inside.1 ++ [k.closing])) = some [] := by
  have hskip : skipBlanks (inside.1 ++ [k.closing]) = [k.closing] := by
    rw [Blanks.skipBlanks_append]
    exact skipBlanks_cons (isBlank_of_isDelimiter k.isDelimiter_closing) []
  simp [items?, hskip]

end Items

theorem elements?_spaced {ts : List Spaced} (hts : ∀ t ∈ ts, IsValue t.text) :
    elements? (array (ts.map Spaced.toBytes)) = some (ts.map Spaced.text) := by
  refine items?_commaSeparated (k := .array) fun t ht => ⟨fun rest hrest => ⟨t.after, ?_⟩, ?_⟩
  · exact takeValue?_spaced (hts t ht) hrest
  · have hskip := (hts t ht).skipBlanks_append t.after.1
    obtain ⟨b, bs, htext, -⟩ := (hts t ht).start
    refine ⟨b, bs ++ t.after.1, ?_, ?_⟩
    · rw [Spaced.toBytes, Blanks.skipBlanks_append, hskip, htext, List.cons_append]
    · rintro rfl
      exact not_isValue_bracketClose bs (htext ▸ hts t ht)

theorem elements?_array {vs : List Bytes} (hvs : ∀ v ∈ vs, IsValue v) :
    elements? (array vs) = some vs := by
  have htight : ∀ t ∈ vs.map Spaced.tight, IsValue t.text := by simpa using hvs
  simpa [Function.comp_def] using elements?_spaced htight

theorem isValue_array {vs : List Bytes} (hvs : ∀ v ∈ vs, IsValue v) : IsValue (array vs) :=
  isValue_items (k := .array) fun v hv => by
    simpa using isItem_spaced (t := .tight v) (hvs v hv)

theorem takeMember?_spaced {m : Member} {rest : Bytes} (hkey : IsString m.key.text)
    (hvalue : IsValue m.layout.text) (hrest : ∀ b ∈ rest.head?, isDelimiter b) :
    takeMember? (m.toBytes ++ rest) = some ((m.key.text, m.layout.text), m.layout.after.1 ++ rest) := by
  have htakeKey : takeValue? (m.key.toBytes ++ Ascii.colon :: (m.layout.toBytes ++ rest)) =
      some (m.key.text, m.key.after.1 ++ Ascii.colon :: (m.layout.toBytes ++ rest)) :=
    takeValue?_spaced hkey.isValue (by simp [isDelimiter])
  have hskip : skipBlanks (m.key.after.1 ++ Ascii.colon :: (m.layout.toBytes ++ rest)) =
      Ascii.colon :: (m.layout.toBytes ++ rest) := by
    rw [Blanks.skipBlanks_append]
    exact skipBlanks_cons (by decide) _
  have happend : m.toBytes ++ rest = m.key.toBytes ++ Ascii.colon :: (m.layout.toBytes ++ rest) := by
    simp [Member.toBytes]
  rw [happend, takeMember?, htakeKey]
  simp only [bind, Option.bind_some, hskip]
  change (takeValue? (m.layout.toBytes ++ rest)).bind (fun p => some ((m.key.text, p.1), p.2)) = _
  rw [takeValue?_spaced hvalue hrest]
  rfl

theorem members?_spaced {ms : List Member} (hkeys : ∀ m ∈ ms, IsString m.key.text)
    (hvalues : ∀ m ∈ ms, IsValue m.layout.text) :
    members? (Ascii.braceOpen :: commaSeparated (ms.map Member.toBytes) ++ [Ascii.braceClose]) =
      some (ms.map fun m => (m.key.text, m.layout.text)) := by
  refine items?_commaSeparated (k := .object) fun m hm => ⟨fun rest hrest => ⟨m.layout.after, ?_⟩, ?_⟩
  · exact takeMember?_spaced (hkeys m hm) (hvalues m hm) hrest
  · have hskip := (hkeys m hm).isValue.skipBlanks_append
      (m.key.after.1 ++ Ascii.colon :: m.layout.toBytes)
    obtain ⟨cs, hcs⟩ := (hkeys m hm).exists_cons
    refine ⟨Ascii.quote, cs ++ (m.key.after.1 ++ Ascii.colon :: m.layout.toBytes), ?_, by decide⟩
    rw [Member.toBytes, Spaced.toBytes, List.append_assoc, List.append_assoc, Blanks.skipBlanks_append,
      hskip, hcs, List.cons_append]

end Telemetry.Json
