import Mathlib.Tactic.MkIffOfInductiveProp
import Telemetry.Metric.ReportJson
import Telemetry.Proofs.Json.Trees

/-!
The objects that stand for reports. Of the members of an object only those count that have the name of a
field, and of each field there may be one. So neither blanks nor the order of the members nor further
ones make a difference, and a field that stands twice is refused.
-/
namespace Telemetry.Report
open Json

/-- A kind: its name, or an object whose only member has that name and the value null. -/
def kindOfTree? : Tree → Option Kind
  | .token bs => (unquote? bs).bind Kind.ofText?
  | .object [(k, .token v)] => if v = null then (unquote? k).bind Kind.ofText? else none
  | _ => none

def fieldNames : List String := ["id", "type", "delta", "value"]

def named (name : String) (ms : List (Bytes × Tree)) : List Tree :=
  (ms.filter fun m => unquote? m.1 = some name).map Prod.snd

/-- What is read of the only value that there is, or nothing where there is none. -/
def atMostOne? {α : Type} (read? : Tree → Option α) : List Tree → Option (Option α)
  | [] => some none
  | [t] => (read? t).map some
  | _ => none

/-- A report is made of the members of an object: every key is a text, id and kind stand there once, and
a delta and a reading at most once, where null is like no value at all. -/
@[mk_iff]
structure MadeOf (r : Report) (ms : List (Bytes × Tree)) : Prop where
  keys : ∀ m ∈ ms, (unquote? m.1).isSome
  id : atMostOne? (Tree.readToken? unquote?) (named "id" ms) = some (some r.id)
  kind : atMostOne? kindOfTree? (named "type" ms) = some (some r.kind)
  delta : (atMostOne? (Tree.readToken? (readOptional? readInt64?)) (named "delta" ms)).map
    (·.getD none) = some r.delta
  value : (atMostOne? (Tree.readToken? (readOptional? readBinary64?)) (named "value" ms)).map
    (·.getD none) = some r.value

section Reading
variable {α : Type} {read? : Tree → Option α} {t : Tree} {v key : Bytes} {name : String}
  {ms : List (Bytes × Tree)} {vs : List (Bytes × Bytes)} {f g : Fields} {r : Report}

theorem named_cons_of_eq (h : unquote? key = some name) (t : Tree) (ms : List (Bytes × Tree)) :
    named name ((key, t) :: ms) = t :: named name ms := by
  simp [named, h]

theorem named_cons_of_ne (h : unquote? key ≠ some name) (t : Tree) (ms : List (Bytes × Tree)) :
    named name ((key, t) :: ms) = named name ms := by
  simp [named, h]

theorem readKind?_of_object (h : (Tree.object ms).HasText v) :
    readKind? v = kindOfTree? (.object ms) := by
  obtain ⟨-, vs, hvs, hms⟩ := h.exists_members
  have hquote : unquote? v = none := h.read?_eq unquote?_opening
  simp only [readKind?, hquote, hvs]
  cases hms with
  | nil => rfl
  | @cons m kv ms vs hm hrest =>
    obtain ⟨k, t⟩ := m
    obtain ⟨k', v'⟩ := kv
    obtain ⟨hk, ht⟩ : k = k' ∧ t.HasText v' := hm
    subst hk
    cases hrest with
    | cons => cases t <;> rfl
    | nil =>
      cases ht with
      | token => rfl
      | emptyArray inside => exact if_neg (opening_ne_null .array _)
      | array es => exact if_neg (opening_ne_null .array _)
      | emptyObject inside => exact if_neg (opening_ne_null .object _)
      | object ms => exact if_neg (opening_ne_null .object _)

theorem readKind?_eq (h : t.HasText v) : readKind? v = kindOfTree? t := by
  cases t with
  | object ms => exact readKind?_of_object h
  | array ts => cases h <;> rfl
  | token bs =>
    cases h with
    | token h =>
      cases hs : unquote? v with
      | some s => simp [readKind?, kindOfTree?, hs]
      | none => simp [readKind?, kindOfTree?, hs, h.members?_eq_none]

def fill? (read? : Tree → Option α) (seen : Option α) : List Tree → Option (Option α)
  | [] => some seen
  | t :: ts => if seen.isSome then none else (read? t).bind fun a => fill? read? (some a) ts

theorem fill?_none (ts : List Tree) : fill? read? none ts = atMostOne? read? ts := by
  match ts with
  | [] => rfl
  | [t] => cases h : read? t <;> simp [fill?, atMostOne?, h]
  | t :: u :: ts => cases h : read? t <;> simp [fill?, atMostOne?, h]

/-- The fields after the members of an object. -/
@[mk_iff]
structure Fills (f : Fields) (ms : List (Bytes × Tree)) (g : Fields) : Prop where
  keys : ∀ m ∈ ms, (unquote? m.1).isSome
  id : fill? (Tree.readToken? unquote?) f.id (named "id" ms) = some g.id
  kind : fill? kindOfTree? f.kind (named "type" ms) = some g.kind
  delta : fill? (Tree.readToken? (readOptional? readInt64?)) f.delta (named "delta" ms) = some g.delta
  value : fill? (Tree.readToken? (readOptional? readBinary64?)) f.value (named "value" ms) =
    some g.value

theorem fill?_cons_eq_some_iff {seen b : Option α} {ts : List Tree} :
    fill? read? seen (t :: ts) = some b ↔
      seen = none ∧ ∃ a, read? t = some a ∧ fill? read? (some a) ts = some b := by
  cases seen with
  | none => simp [fill?, Option.bind_eq_some_iff]
  | some a => simp [fill?]

/-- What taking a known field means: it is new and its value is well-formed. -/
theorem exists_filled_iff {seen : Option α} {read : Option α} {fields : α → Fields} {P : Fields → Prop} :
    (∃ f', (if seen.isSome then none else read.map fields) = some f' ∧ P f') ↔
      seen = none ∧ ∃ a, read = some a ∧ P (fields a) := by
  cases seen <;> cases read <;> simp

theorem exists_add?_iff (h : t.HasText v) :
    (∃ f', f.add? key v = some f' ∧ Fills f' ms g) ↔ Fills f ((key, t) :: ms) g := by
  have hid : unquote? v = t.readToken? unquote? := h.read?_eq unquote?_opening
  have hkind := readKind?_eq h
  have hdelta : readOptional? readInt64? v = t.readToken? (readOptional? readInt64?) :=
    h.read?_eq (readOptional?_opening readInt64?_opening)
  have hvalue : readOptional? readBinary64? v = t.readToken? (readOptional? readBinary64?) :=
    h.read?_eq (readOptional?_opening readBinary64?_opening)
  cases hk : unquote? key with
  | none => simp [fills_iff, Fields.add?, hk]
  | some name =>
    have hother : ∀ other, name ≠ other → named other ((key, t) :: ms) = named other ms :=
      fun other hne => named_cons_of_ne (by simpa [hk] using hne) t ms
    have hthis := named_cons_of_eq hk t ms
    simp only [fills_iff, List.forall_mem_cons, hk, Option.isSome_some, true_and, Fields.add?, bind,
      Option.bind_some, hid, hkind, hdelta, hvalue]
    split
    · next hname =>
      subst hname
      rw [exists_filled_iff, hthis, hother "type" (by decide), hother "delta" (by decide),
        hother "value" (by decide), fill?_cons_eq_some_iff]
      grind
    split
    · next hname =>
      subst hname
      rw [exists_filled_iff, hthis, hother "id" (by decide), hother "delta" (by decide),
        hother "value" (by decide), fill?_cons_eq_some_iff]
      grind
    split
    · next hname =>
      subst hname
      rw [exists_filled_iff, hthis, hother "id" (by decide), hother "type" (by decide),
        hother "value" (by decide), fill?_cons_eq_some_iff]
      grind
    split
    · next hname =>
      subst hname
      rw [exists_filled_iff, hthis, hother "id" (by decide), hother "type" (by decide),
        hother "delta" (by decide), fill?_cons_eq_some_iff]
      grind
    · next hid hkind hdelta hvalue =>
      rw [hother "id" hid, hother "type" hkind, hother "delta" hdelta, hother "value" hvalue]
      simp

theorem addAll?_eq_some_iff (h : List.Forall₂ (fun m kv => m.1 = kv.1 ∧ m.2.HasText kv.2) ms vs) :
    f.addAll? vs = some g ↔ Fills f ms g := by
  induction h generalizing f with
  | nil =>
    constructor
    · rintro ⟨⟩
      exact ⟨by simp, rfl, rfl, rfl, rfl⟩
    · rintro ⟨-, hid, hkind, hdelta, hvalue⟩
      obtain ⟨id, kind, delta, value⟩ := g
      cases hid
      cases hkind
      cases hdelta
      cases hvalue
      rfl
  | @cons m kv ms vs hm _ ih =>
    obtain ⟨key, t⟩ := m
    obtain ⟨key', v⟩ := kv
    obtain ⟨rfl, ht⟩ := hm
    rw [Fields.addAll?, Option.bind_eq_some_iff]
    simp only [ih]
    exact exists_add?_iff ht

theorem toReport?_eq_some_iff : f.toReport? = some r ↔
    f.id = some r.id ∧ f.kind = some r.kind ∧ f.delta.getD none = r.delta ∧ f.value.getD none = r.value := by
  obtain ⟨id, kind, delta, value⟩ := f
  obtain ⟨rid, rkind, rdelta, rvalue⟩ := r
  cases id <;> cases kind <;> simp [Fields.toReport?]

theorem ofValue?_eq_some_iff (h : (Tree.object ms).HasText v) :
    ofValue? v = some r ↔ r.MadeOf ms := by
  obtain ⟨hnone, vs, hvs, hms⟩ := h.exists_members
  simp only [ofValue?, hnone, hvs, Option.bind_some, Option.bind_eq_some_iff, addAll?_eq_some_iff hms,
    toReport?_eq_some_iff]
  constructor
  · rintro ⟨f, hf, hid, hkind, hdelta, hvalue⟩
    refine ⟨hf.keys, ?_, ?_, ?_, ?_⟩
    · rw [← fill?_none, hf.id, hid]
    · rw [← fill?_none, hf.kind, hkind]
    · rw [← fill?_none, hf.delta, Option.map_some, hdelta]
    · rw [← fill?_none, hf.value, Option.map_some, hvalue]
  · intro hr
    obtain ⟨delta, hdelta, hgetDelta⟩ := Option.map_eq_some_iff.1 hr.delta
    obtain ⟨value, hvalue, hgetValue⟩ := Option.map_eq_some_iff.1 hr.value
    refine ⟨⟨some r.id, some r.kind, delta, value⟩, ⟨hr.keys, ?_, ?_, ?_, ?_⟩, rfl, rfl, hgetDelta,
      hgetValue⟩
    · exact (fill?_none _).trans hr.id
    · exact (fill?_none _).trans hr.kind
    · exact (fill?_none _).trans hdelta
    · exact (fill?_none _).trans hvalue

theorem ofJson?_eq_some_iff {d : Spaced} (h : (Tree.object ms).HasText d.text) :
    ofJson? d.toBytes = some r ↔ r.MadeOf ms := by
  rw [ofJson?, document?_spaced h.isValue]
  exact ofValue?_eq_some_iff h

end Reading

/-- Other members that make the same report: in another order, with null for a delta or a reading that is
absent, or with one more that no field has the name of, whatever its value is. -/
inductive Rewritten : List (Bytes × Tree) → List (Bytes × Tree) → Prop
  | reordered {ms ms' : List (Bytes × Tree)} (h : ms.Perm ms') : Rewritten ms ms'
  | absent {ms : List (Bytes × Tree)} {key : Bytes} {name : String}
      (hname : name = "delta" ∨ name = "value") (hkey : unquote? key = some name)
      (habsent : ∀ m ∈ ms, unquote? m.1 ≠ some name) :
      Rewritten ms ((key, .token null) :: ms)
  | unknown {ms : List (Bytes × Tree)} {key : Bytes} {name : String} (hkey : unquote? key = some name)
      (hname : name ∉ fieldNames) (t : Tree) : Rewritten ms ((key, t) :: ms)
  | trans {ms₁ ms₂ ms₃ : List (Bytes × Tree)} (h₁ : Rewritten ms₁ ms₂) (h₂ : Rewritten ms₂ ms₃) :
      Rewritten ms₁ ms₃

section Rewriting
variable {α : Type} {read? : Tree → Option α} {ms ms' : List (Bytes × Tree)} {r : Report}

theorem atMostOne?_perm {ts ts' : List Tree} (h : ts.Perm ts') :
    atMostOne? read? ts = atMostOne? read? ts' := by
  match ts with
  | [] => rw [List.nil_perm.1 h]
  | [t] => rw [List.singleton_perm.1 h]
  | t :: u :: ts =>
    match ts', h.length_eq with
    | t' :: u' :: ts', _ => rfl

theorem named_perm (h : ms.Perm ms') (name : String) : (named name ms).Perm (named name ms') :=
  (h.filter _).map _

theorem madeOf_perm (h : ms.Perm ms') : r.MadeOf ms ↔ r.MadeOf ms' := by
  have hfield : ∀ {α : Type} (read? : Tree → Option α) (name : String),
      atMostOne? read? (named name ms) = atMostOne? read? (named name ms') :=
    fun _ name => atMostOne?_perm (named_perm h name)
  simp only [madeOf_iff, hfield, h.mem_iff]

theorem madeOf_unknown {key : Bytes} {name : String} (hkey : unquote? key = some name)
    (hname : name ∉ fieldNames) (t : Tree) :
    r.MadeOf ms ↔ r.MadeOf ((key, t) :: ms) := by
  have hother : ∀ other ∈ fieldNames,
      named other ((key, t) :: ms) = named other ms := by
    intro other hmem
    refine named_cons_of_ne (fun h => hname ?_) t ms
    obtain rfl : name = other := Option.some.inj (hkey.symm.trans h)
    exact hmem
  simp only [madeOf_iff, hother "id" (by decide), hother "type" (by decide), hother "delta" (by decide),
    hother "value" (by decide), List.forall_mem_cons, hkey, Option.isSome_some, true_and]

theorem atMostOne?_null {β : Type} {read? : Bytes → Option β} {key : Bytes} {name : String}
    (hkey : unquote? key = some name) (habsent : ∀ m ∈ ms, unquote? m.1 ≠ some name) :
    (atMostOne? (Tree.readToken? (readOptional? read?)) (named name ((key, .token null) :: ms))).map
        (·.getD none) =
      (atMostOne? (Tree.readToken? (readOptional? read?)) (named name ms)).map (·.getD none) := by
  have hnone : named name ms = [] := by simpa [named] using habsent
  have hnull : readOptional? read? null = some none := if_pos rfl
  rw [named_cons_of_eq hkey, hnone]
  simp [atMostOne?, Tree.readToken?, hnull]

theorem madeOf_absent {key : Bytes} {name : String} (hname : name = "delta" ∨ name = "value")
    (hkey : unquote? key = some name) (habsent : ∀ m ∈ ms, unquote? m.1 ≠ some name) :
    r.MadeOf ms ↔ r.MadeOf ((key, .token null) :: ms) := by
  have hother : ∀ other, name ≠ other → named other ((key, .token null) :: ms) = named other ms :=
    fun other hne => named_cons_of_ne (by simpa [hkey] using hne) _ ms
  rcases hname with rfl | rfl
  · simp only [madeOf_iff, atMostOne?_null hkey habsent, hother "id" (by decide),
      hother "type" (by decide), hother "value" (by decide), List.forall_mem_cons, hkey,
      Option.isSome_some, true_and]
  · simp only [madeOf_iff, atMostOne?_null hkey habsent, hother "id" (by decide),
      hother "type" (by decide), hother "delta" (by decide), List.forall_mem_cons, hkey,
      Option.isSome_some, true_and]

theorem Rewritten.madeOf_iff (h : Rewritten ms ms') : r.MadeOf ms ↔ r.MadeOf ms' := by
  induction h with
  | reordered h => exact madeOf_perm h
  | absent hname hkey habsent => exact madeOf_absent hname hkey habsent
  | unknown hkey hname t => exact madeOf_unknown hkey hname t
  | trans _ _ ih₁ ih₂ => exact ih₁.trans ih₂

theorem atMostOne?_eq_none {ts : List Tree} (h : 2 ≤ ts.length) : atMostOne? read? ts = none := by
  match ts with
  | t :: u :: ts => rfl

theorem not_madeOf_of_repeated {m m' : Bytes × Tree} (hsub : [m, m'].Sublist ms) {name : String}
    (hname : name ∈ fieldNames) (hm : unquote? m.1 = some name)
    (hm' : unquote? m'.1 = some name) : ¬ r.MadeOf ms := by
  have htwo : 2 ≤ (named name ms).length := by
    have hle := ((hsub.filter fun m => unquote? m.1 = some name).map Prod.snd).length_le
    simpa [hm, hm', named] using hle
  have hnone : ∀ {α : Type} (read? : Tree → Option α), atMostOne? read? (named name ms) = none :=
    fun _ => atMostOne?_eq_none htwo
  intro hr
  simp only [fieldNames, List.mem_cons, List.not_mem_nil, or_false] at hname
  rcases hname with rfl | rfl | rfl | rfl
  · cases (hnone _).symm.trans hr.id
  · cases (hnone _).symm.trans hr.kind
  · simpa [hnone] using hr.delta
  · simpa [hnone] using hr.value

end Rewriting

section Texts
variable {ms ms' : List (Bytes × Tree)} {d d' : Spaced}

/-- However the members are laid out and rewritten, the same report is read, or none. -/
theorem ofJson?_rewritten (h : Rewritten ms ms') (hd : (Tree.object ms).HasText d.text)
    (hd' : (Tree.object ms').HasText d'.text) : ofJson? d'.toBytes = ofJson? d.toBytes :=
  Option.ext fun _ =>
    (ofJson?_eq_some_iff hd').trans (h.madeOf_iff.symm.trans (ofJson?_eq_some_iff hd).symm)

theorem ofJson?_repeated {m m' : Bytes × Tree} {name : String} (hd : (Tree.object ms).HasText d.text)
    (hsub : [m, m'].Sublist ms) (hname : name ∈ fieldNames)
    (hm : unquote? m.1 = some name) (hm' : unquote? m'.1 = some name) : ofJson? d.toBytes = none :=
  Option.eq_none_iff_forall_ne_some.2 fun _ hr =>
    not_madeOf_of_repeated hsub hname hm hm' ((ofJson?_eq_some_iff hd).1 hr)

end Texts

end Telemetry.Report
