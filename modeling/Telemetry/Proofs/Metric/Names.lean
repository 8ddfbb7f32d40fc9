import Telemetry.Metric.Basic
import Telemetry.Text.Bytes

/-!
The names of metrics. They consist of ASCII letters, digits, underscores and colons and do not begin with
a digit; so their order is that of their octets.
-/
namespace Telemetry

namespace Bytes

theorem utf8EncodeChar_of_ascii {c : Char} (h : c.toNat < 128) :
    String.utf8EncodeChar c = [UInt8.ofNat c.toNat] := by
  have hle : c.val.toNat ≤ 127 := Nat.le_of_lt_succ h
  simp only [String.utf8EncodeChar, hle, if_true]
  rfl

theorem flatMap_lt_of_ascii {cs ds : List Char} (hcs : ∀ c ∈ cs, c.toNat < 128)
    (hds : ∀ d ∈ ds, d.toNat < 128) (h : cs < ds) :
    cs.flatMap String.utf8EncodeChar < ds.flatMap String.utf8EncodeChar := by
  induction cs generalizing ds with
  | nil =>
    cases ds with
    | nil => exact absurd h (List.lt_irrefl _)
    | cons d ds =>
      rw [List.flatMap_cons, utf8EncodeChar_of_ascii (hds d List.mem_cons_self)]
      exact List.nil_lt_cons _ _
  | cons c cs ih =>
    cases ds with
    | nil => exact absurd h (List.not_lt_nil _)
    | cons d ds =>
      obtain ⟨hc, hcs⟩ := List.forall_mem_cons.1 hcs
      obtain ⟨hd, hrest⟩ := List.forall_mem_cons.1 hds
      rw [List.flatMap_cons, List.flatMap_cons, utf8EncodeChar_of_ascii hc, utf8EncodeChar_of_ascii hd,
        List.singleton_append, List.singleton_append, List.cons_lt_cons_iff]
      rcases List.cons_lt_cons_iff.1 h with hlt | ⟨rfl, hlt⟩
      · left
        rw [UInt8.lt_iff_toNat_lt, UInt8.toNat_ofNat', UInt8.toNat_ofNat']
        have hlt : c.toNat < d.toNat := hlt
        omega
      · exact .inr ⟨rfl, ih hcs hrest hlt⟩

theorem ofText_lt_of_ascii {s t : String} (hs : ∀ c ∈ s.toList, c.toNat < 128)
    (ht : ∀ c ∈ t.toList, c.toNat < 128) (h : s < t) : ofText s < ofText t := by
  have hbytes := flatMap_lt_of_ascii hs ht (String.lt_iff.1 h)
  rwa [← ofText_ofList, ← ofText_ofList, String.ofList_toList, String.ofList_toList] at hbytes

end Bytes

def BeginsName (c : Char) : Prop := 'a' ≤ c ∧ c ≤ 'z' ∨ 'A' ≤ c ∧ c ≤ 'Z' ∨ c = '_' ∨ c = ':'

/-- One of these characters, and then any number of them and of digits. -/
def IsSpelledAsName (name : String) : Prop :=
  ∃ c cs, name.toList = c :: cs ∧ BeginsName c ∧ ∀ d ∈ cs, BeginsName d ∨ '0' ≤ d ∧ d ≤ '9'

theorem isNameStart_iff {c : Char} : isNameStart c ↔ BeginsName c := by
  have hranges : isNameStart c = (decide ('A' ≤ c ∧ c ≤ 'Z') ||
      (decide ('a' ≤ c) && decide (c ≤ 'z')) || c == '_' || c == ':') := rfl
  simp [hranges, BeginsName, or_assoc, or_left_comm]

theorem isNameRest_iff {c : Char} : isNameRest c ↔ BeginsName c ∨ '0' ≤ c ∧ c ≤ '9' := by
  have hdigits : c.isDigit = (decide ('0' ≤ c) && decide (c ≤ '9')) := rfl
  simp [isNameRest, ← isNameStart_iff, hdigits]

theorem isName_iff {name : String} : isName name ↔ IsSpelledAsName name := by
  unfold isName IsSpelledAsName
  cases name.toList with
  | nil => simp
  | cons c cs =>
    rw [Bool.and_eq_true, List.all_eq_true]
    simp only [isNameStart_iff, isNameRest_iff, List.cons.injEq]
    constructor
    · exact fun h => ⟨c, cs, ⟨rfl, rfl⟩, h⟩
    · rintro ⟨_, _, ⟨rfl, rfl⟩, h⟩
      exact h

theorem isNameRest_of_mem {name : String} (h : isName name) {c : Char} (hc : c ∈ name.toList) :
    isNameRest c = true := by
  unfold isName at h
  split at h
  · simp at h
  · next a as hname =>
    rw [Bool.and_eq_true, List.all_eq_true] at h
    rw [hname] at hc
    rcases List.mem_cons.1 hc with rfl | hc
    · simp [isNameRest, h.1]
    · exact h.2 c hc

theorem ascii_of_isName {name : String} (h : isName name) : ∀ c ∈ name.toList, c.toNat < 128 := by
  obtain ⟨c, cs, hname, hc, hcs⟩ := isName_iff.1 h
  have hbegins : ∀ {c : Char}, BeginsName c → c.toNat < 128 := by
    rintro c (h | h | rfl | rfl)
    · exact Nat.lt_of_le_of_lt (show c.toNat ≤ 122 from h.2) (by decide)
    · exact Nat.lt_of_le_of_lt (show c.toNat ≤ 90 from h.2) (by decide)
    · decide
    · decide
  rw [hname]
  refine List.forall_mem_cons.2 ⟨hbegins hc, fun d hd => ?_⟩
  rcases hcs d hd with hd | hd
  · exact hbegins hd
  · exact Nat.lt_of_le_of_lt (show d.toNat ≤ 57 from hd.2) (by decide)

end Telemetry
