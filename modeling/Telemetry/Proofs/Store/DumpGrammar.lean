import Telemetry.Proofs.Metric.Updates
import Telemetry.Proofs.Metric.WellFormed
import Telemetry.Store.Snapshot

/-!
The grammar of dumps. A line stands for a metric if it is a name, the word of a kind and a text that the kind
takes as a value, with a colon after each of the first two and no other; the reader of dumps takes these lines,
passes over blank ones and reports the first line that is neither.
-/
namespace Telemetry

namespace Text
variable {α : Type} [DecidableEq α] {sep : α} {cs piece as bs ds : List α}

theorem not_mem_of_mem_split (h : piece ∈ split sep cs) : sep ∉ piece := by
  induction cs generalizing piece with
  | nil =>
    obtain rfl : piece = [] := by simpa using h
    simp
  | cons c cs ih =>
    by_cases hc : c = sep
    · subst hc
      rw [split_cons_self] at h
      rcases List.mem_cons.1 h with rfl | h
      · simp
      · exact ih h
    · obtain ⟨first, rest, hcs, hsplit⟩ := split_cons_of_ne sep hc cs
      rw [hsplit] at h
      rcases List.mem_cons.1 h with rfl | h
      · have hfirst := ih (hcs ▸ List.mem_cons_self)
        simp [hfirst, Ne.symm hc]
      · exact ih (hcs ▸ List.mem_cons_of_mem _ h)

theorem split_eq_three_iff : split sep cs = [as, bs, ds] ↔
    cs = as ++ sep :: (bs ++ sep :: ds) ∧ sep ∉ as ∧ sep ∉ bs ∧ sep ∉ ds := by
  constructor
  · intro h
    have hpieces : ∀ piece ∈ [as, bs, ds], sep ∉ piece := fun piece hmem => not_mem_of_mem_split (h ▸ hmem)
    refine ⟨?_, hpieces as (by simp), hpieces bs (by simp), hpieces ds (by simp)⟩
    rw [← intercalate_split sep cs, h]
    simp [List.intercalate, List.intersperse]
  · rintro ⟨rfl, has, hbs, hds⟩
    rw [split_append_cons _ has, split_append_cons _ hbs, split_of_not_mem _ hds]

end Text

/-- The text stands for the value: between blanks, a 64-bit integer or a finite number. -/
inductive Value.IsText : Value → List Char → Prop
  | counter {n : Int64} {cs : List Char} (h : Text.IsInt64Literal (Text.trim cs) n) :
      IsText (.counter n) cs
  | gauge {x : Binary64} {cs : List Char} (h : Binary64.ofText? (Text.trim cs) = some x)
      (hx : x.isFinite) : IsText (.gauge x) cs

namespace Metric

theorem parse_eq_ok_iff {kind name : String} {m : Metric} :
    parse kind name = .ok m ↔ ∃ k : Kind, kind = k.text ∧ isName name ∧ m = ⟨name, .zero k⟩ := by
  constructor
  · intro h
    obtain ⟨hkind, rfl, hfresh⟩ := fresh_of_parse h
    exact ⟨m.kind, hkind, fresh_eq_ok_iff.1 hfresh⟩
  · rintro ⟨k, rfl, h⟩
    simpa [parse] using fresh_eq_ok_iff.2 h

theorem update_zero_text_iff {name s : String} {k : Kind} {v : Value} :
    (Metric.mk name (.zero k)).update (.text s) = .ok ⟨name, v⟩ ↔ v.kind = k ∧ v.IsText s.toList := by
  cases k with
  | counter =>
    have hzero : (0 : Int64).toInt = 0 := rfl
    have hupdate : (Metric.mk name (.zero .counter)).update (.text s) = .ok ⟨name, v⟩ ↔
        ∃ n, Text.IsInt64Literal (Text.trim s.toList) n ∧ v = .counter n := by
      simp [Value.zero, update_counter_eq_ok_iff, Input.isInteger_text_iff, hzero, Int64.toInt_inj]
    refine hupdate.trans ⟨?_, ?_⟩
    · rintro ⟨n, hn, rfl⟩
      exact ⟨rfl, .counter hn⟩
    · rintro ⟨hkind, htext⟩
      cases htext with
      | counter h => exact ⟨_, h, rfl⟩
      | gauge => cases hkind
  | gauge =>
    have hupdate : (Metric.mk name (.zero .gauge)).update (.text s) = .ok ⟨name, v⟩ ↔
        ∃ x, (Binary64.ofText? (Text.trim s.toList) = some x ∧ x.isFinite) ∧ .gauge x = v := by
      simp [update_eq_ok_iff, nextValue?, Value.zero, Input.reading?, Input.number?, Option.filter_eq_some_iff]
    refine hupdate.trans ⟨?_, ?_⟩
    · rintro ⟨x, ⟨h, hx⟩, rfl⟩
      exact ⟨rfl, .gauge h hx⟩
    · rintro ⟨hkind, htext⟩
      cases htext with
      | counter => cases hkind
      | gauge h hx => exact ⟨_, ⟨h, hx⟩, rfl⟩

end Metric

namespace Dump

inductive IsEntry : List Char → Metric → Prop
  | fields {name : String} {v : Value} {value : List Char} (hname : isName name)
      (hcolon : ':' ∉ name.toList) (hvalue : ':' ∉ value) (htext : v.IsText value) :
      IsEntry (name.toList ++ ':' :: (v.kind.text.toList ++ ':' :: value)) ⟨name, v⟩

theorem IsEntry.wellFormed {cs : List Char} {m : Metric} (h : IsEntry cs m) : m.WellFormed := by
  cases h with
  | fields hname _ _ htext =>
    refine ⟨hname, ?_⟩
    cases htext with
    | counter => rfl
    | gauge _ hx => exact hx

theorem not_mem_kind_text (k : Kind) : ':' ∉ k.text.toList ∧ '\n' ∉ k.text.toList ∧
    '\r' ∉ k.text.toList := by
  cases k <;> decide

def IsMalformed (cs : List Char) : Prop := cs.all Text.isBlank = false ∧ ∀ m, ¬ IsEntry cs m

section Lines
variable {cs : List Char} {m : Metric} {ls before : List (List Char)}

/-- The reader takes the lines of metrics and nothing else. -/
theorem readLine_eq_ok_iff : readLine cs = .ok m ↔ IsEntry cs m := by
  constructor
  · intro h
    unfold readLine at h
    split at h
    · next name kind value hsplit =>
      obtain ⟨rfl, hcolon, -, hvalue⟩ := Text.split_eq_three_iff.1 hsplit
      cases hparse : Metric.parse (String.ofList kind) (String.ofList name) with
      | error e => simp [hparse, Except.bind] at h
      | ok fresh =>
        obtain ⟨k, hkind, hname, rfl⟩ := Metric.parse_eq_ok_iff.1 hparse
        simp only [hparse, Except.bind] at h
        split at h
        · next m' hupdate =>
          cases h
          obtain ⟨name', v⟩ := m
          obtain rfl : name' = String.ofList name := (Metric.update_eq_ok_iff.1 hupdate).1
          obtain ⟨rfl, htext⟩ := Metric.update_zero_text_iff.1 hupdate
          have hentry := IsEntry.fields hname (by simpa using hcolon) hvalue (by simpa using htext)
          simpa [← hkind] using hentry
        · cases h
    · cases h
  · intro h
    cases h with
    | @fields name v value hname hcolon hvalue htext =>
      have hsplit := Text.split_eq_three_iff.2 ⟨rfl, hcolon, (not_mem_kind_text v.kind).1, hvalue⟩
      have hparse : Metric.parse v.kind.text name = .ok ⟨name, .zero v.kind⟩ :=
        Metric.parse_eq_ok_iff.2 ⟨v.kind, rfl, hname, rfl⟩
      have hupdate : (Metric.mk name (.zero v.kind)).update (.text (String.ofList value)) = .ok ⟨name, v⟩ :=
        Metric.update_zero_text_iff.2 ⟨rfl, by simpa using htext⟩
      simp [readLine, hsplit, hparse, Except.bind, hupdate]

theorem exists_readLine_error (h : ∀ m, ¬ IsEntry cs m) : ∃ e, readLine cs = .error e := by
  cases hread : readLine cs with
  | ok m => exact absurd (readLine_eq_ok_iff.1 hread) (h m)
  | error e => exact ⟨e, rfl⟩

theorem IsEntry.eq_of_readLine {m' : Metric} (h : IsEntry cs m) (hread : readLine cs = .ok m') : m = m' :=
  Except.ok.inj ((readLine_eq_ok_iff.2 h).symm.trans hread)

theorem isMalformed_iff : IsMalformed cs ↔
    cs.all Text.isBlank = false ∧ (readLine cs).toOption = none := by
  have hnone : (readLine cs).toOption = none ↔ ∀ m, readLine cs ≠ .ok m := by
    cases readLine cs <;> simp [Except.toOption]
  simp [IsMalformed, hnone, readLine_eq_ok_iff]

instance (cs : List Char) : Decidable (IsMalformed cs) := decidable_of_iff _ isMalformed_iff.symm

theorem blank_or_entry (h : ¬ IsMalformed cs) :
    cs.all Text.isBlank = true ∨ cs.all Text.isBlank = false ∧ ∃ m, IsEntry cs m := by
  cases hblank : cs.all Text.isBlank with
  | true => exact .inl rfl
  | false => exact .inr ⟨rfl, not_forall_not.1 fun hnone => h ⟨hblank, hnone⟩⟩

def entries (ls : List (List Char)) : List (List Char) := ls.filter fun cs => !cs.all Text.isBlank

theorem readLines_of_wellFormed (h : ∀ cs ∈ ls, ¬ IsMalformed cs) (n : Nat) :
    ∃ ms, readLines n ls = .ok ms ∧ List.Forall₂ IsEntry (entries ls) ms := by
  induction ls generalizing n with
  | nil => exact ⟨[], rfl, .nil⟩
  | cons cs ls ih =>
    obtain ⟨hcs, hls⟩ := List.forall_mem_cons.1 h
    obtain ⟨ms, hread, hms⟩ := ih hls (n + 1)
    rcases blank_or_entry hcs with hblank | ⟨hblank, m, hm⟩
    · exact ⟨ms, by simp [readLines, hblank, hread], by simpa [entries, hblank] using hms⟩
    · refine ⟨m :: ms, by simp [readLines, hblank, readLine_eq_ok_iff.2 hm, hread, Except.map], ?_⟩
      simpa [entries, hblank] using List.Forall₂.cons hm hms

/-- The first malformed line is reported by its number, lines counted from `n`. -/
theorem readLines_of_malformed (hbefore : ∀ cs ∈ before, ¬ IsMalformed cs) (hcs : IsMalformed cs)
    (after : List (List Char)) (n : Nat) : ∃ e, readLine cs = .error e ∧
      readLines n (before ++ cs :: after) = .error (.malformedLine (n + before.length) e.message) := by
  induction before generalizing n with
  | nil =>
    obtain ⟨e, he⟩ := exists_readLine_error hcs.2
    exact ⟨e, he, by simp [readLines, hcs.1, he]⟩
  | cons line before ih =>
    obtain ⟨hline, hrest⟩ := List.forall_mem_cons.1 hbefore
    obtain ⟨e, he, hread⟩ := ih hrest (n + 1)
    have hnumber : n + 1 + before.length = n + (line :: before).length := by
      simp only [List.length_cons]
      omega
    rw [hnumber] at hread
    refine ⟨e, he, ?_⟩
    rcases blank_or_entry hline with hblank | ⟨hblank, m, hm⟩
    · simp [readLines, hblank, hread]
    · simp [readLines, hblank, readLine_eq_ok_iff.2 hm, hread, Except.map]

end Lines
end Dump
end Telemetry
