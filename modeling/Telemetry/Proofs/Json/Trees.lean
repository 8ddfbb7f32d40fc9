import Mathlib.Data.List.Forall2
import Telemetry.Proofs.Json.Numbers
import Telemetry.Proofs.Json.Parts

/-!
The texts of a tree are values, and are cut into texts of its parts. What reads a single token finds the
same in all texts of a tree.
-/
namespace Telemetry.Json

section Tokens
variable {bs : Bytes}

theorem steps?_literal {rest : Bytes} (hne : rest ≠ []) (outer : List Bracket) :
    steps? rest ⟨.literal rest, outer⟩ = some ⟨.next, outer⟩ := by
  induction rest with
  | nil => exact absurd rfl hne
  | cons b rest ih =>
    cases rest with
    | nil =>
      have hstep : State.step? ⟨.literal [b], outer⟩ b = some ⟨.next, outer⟩ := by simp [State.step?]
      rw [steps?_cons_inside (by simp) (by simp) hstep]
      rfl
    | cons c cs =>
      have hstep : State.step? ⟨.literal (b :: c :: cs), outer⟩ b = some ⟨.literal (c :: cs), outer⟩ := by
        simp [State.step?]
      rw [steps?_cons_inside (by simp) (by simp) hstep]
      exact ih (by simp)

theorem isValue_literal {b : UInt8} {rest : Bytes} (hb : Ascii.isBlank b = false) (hne : rest ≠ [])
    (hfirst : ∀ outer, State.step? ⟨.value, outer⟩ b = some ⟨.literal rest, outer⟩) :
    IsValue (b :: rest) := by
  refine ⟨⟨b, rest, rfl, hb⟩, fun outer => ⟨⟨.next, outer⟩, ?_, .next⟩⟩
  rw [steps?_cons_waiting rfl (hfirst outer)]
  exact steps?_literal hne outer

theorem IsToken.isValue (h : IsToken bs) : IsValue bs := by
  cases h with
  | string h => exact h.isValue
  | number h => exact h.isNumber.isValue
  | minus h => exact h.isNumber.isValue_minus
  | true => exact isValue_literal (by decide) (by simp) fun _ => rfl
  | false => exact isValue_literal (by decide) (by simp) fun _ => rfl
  | null => exact isValue_literal (by decide) (by simp) fun _ => rfl

theorem IsMagnitude.exists_cons (h : IsMagnitude bs) : ∃ b cs, bs = b :: cs ∧ Ascii.isDigit b := by
  obtain ⟨hwhole, -, -⟩ := h
  cases hwhole with
  | zero => exact ⟨_, _, rfl, by decide⟩
  | positive hdigit => exact ⟨_, _, rfl, hdigit⟩

theorem IsToken.ne_opening (h : IsToken bs) (k : Bracket) (cs : Bytes) : bs ≠ k.opening :: cs := by
  intro hbs
  cases h with
  | string h =>
    obtain ⟨ds, rfl⟩ := h.exists_cons
    cases k <;> cases hbs
  | number h =>
    obtain ⟨b, ds, rfl, hb⟩ := h.exists_cons
    cases k <;> cases hbs <;> cases hb
  | minus h => cases k <;> cases hbs
  | true => cases k <;> cases hbs
  | false => cases k <;> cases hbs
  | null => cases k <;> cases hbs

theorem IsToken.members?_eq_none (h : IsToken bs) : members? bs = none := by
  obtain ⟨b, cs, rfl, -⟩ := h.isValue.start
  have hb : b ≠ Ascii.braceOpen := fun hb => h.ne_opening .object cs (by rw [hb]; rfl)
  simp [members?, items?, hb]

end Tokens

namespace Tree
variable {t : Tree} {ts : List Tree} {ms : List (Bytes × Tree)} {v : Bytes}

/-- Whatever the tree, its texts are values. -/
theorem HasText.isValue (h : t.HasText v) : IsValue v := by
  induction h with
  | token h => exact h.isValue
  | emptyArray inside => exact isValue_blanks .array inside
  | array es _ ih =>
    refine isValue_items (k := .array) fun item hitem => ?_
    obtain ⟨e, he, rfl⟩ := List.mem_map.1 hitem
    exact isItem_spaced (ih e he)
  | emptyObject inside => exact isValue_blanks .object inside
  | object ms hkeys _ ih =>
    refine isValue_items (k := .object) fun item hitem => ?_
    obtain ⟨m, hm, rfl⟩ := List.mem_map.1 hitem
    exact isItem_member (hkeys m hm) (ih m hm)

/-- The members of an object are found in each of its texts. -/
theorem HasText.exists_members (h : (Tree.object ms).HasText v) :
    elements? v = none ∧
      ∃ vs, members? v = some vs ∧ List.Forall₂ (fun m kv => m.1 = kv.1 ∧ m.2.HasText kv.2) ms vs := by
  cases h with
  | emptyObject inside => exact ⟨rfl, [], items?_blanks takeMember? .object inside, .nil⟩
  | object ms hkeys hvalues =>
    refine ⟨rfl, _, members?_spaced hkeys fun m hm => (hvalues m hm).isValue, ?_⟩
    rw [List.forall₂_map_left_iff, List.forall₂_map_right_iff, List.forall₂_same]
    exact fun m hm => ⟨rfl, hvalues m hm⟩

theorem hasText_object {kvs : List (String × Bytes)} (h : ∀ kv ∈ kvs, IsToken kv.2) :
    (object (kvs.map fun kv => (quote kv.1, token kv.2))).HasText (Json.object kvs) := by
  have htext := HasText.object
    (kvs.map fun kv => Member.mk (.tight (quote kv.1)) (token kv.2) (.tight kv.2)) ?_ ?_
  · simpa [Function.comp_def, Member.toPair, Member.toBytes, Json.object, member] using htext
  · intro m hm
    obtain ⟨kv, -, rfl⟩ := List.mem_map.1 hm
    exact isString_quote kv.1
  · intro m hm
    obtain ⟨kv, hkv, rfl⟩ := List.mem_map.1 hm
    exact .token (h kv hkv)

def readToken? {α : Type} (read? : Bytes → Option α) : Tree → Option α
  | token bs => read? bs
  | _ => none

theorem HasText.read?_eq {α : Type} {read? : Bytes → Option α} (h : t.HasText v)
    (hread : ∀ (k : Bracket) bs, read? (k.opening :: bs) = none) : read? v = t.readToken? read? := by
  cases h with
  | token h => rfl
  | emptyArray inside => exact hread .array _
  | array es hes => exact hread .array _
  | emptyObject inside => exact hread .object _
  | object ms hkeys hvalues => exact hread .object _

end Tree

section Readers
variable {α : Type} {read? : Bytes → Option α}

theorem unquote?_opening (k : Bracket) (bs : Bytes) : unquote? (k.opening :: bs) = none := by
  cases k <;> rfl

theorem readInt64?_opening (k : Bracket) (bs : Bytes) : readInt64? (k.opening :: bs) = none := by
  cases k <;> rfl

theorem readBinary64?_opening (k : Bracket) (bs : Bytes) : readBinary64? (k.opening :: bs) = none := by
  cases k <;> rfl

theorem opening_ne_null (k : Bracket) (bs : Bytes) : k.opening :: bs ≠ null := by
  intro h
  cases k <;> cases h

theorem readOptional?_opening (h : ∀ (k : Bracket) bs, read? (k.opening :: bs) = none) (k : Bracket)
    (bs : Bytes) : readOptional? read? (k.opening :: bs) = none := by
  rw [readOptional?, if_neg (opening_ne_null k bs), h]
  rfl

end Readers

end Telemetry.Json
