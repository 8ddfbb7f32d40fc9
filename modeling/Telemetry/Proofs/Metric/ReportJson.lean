import Telemetry.Proofs.Metric.ReportMembers
import Telemetry.Proofs.Traversal

/-!
Reports that have been written as JSON are read back, alone and in lists. Of a reading this has to be
known, since numbers with a fraction are read in two roundings.
-/
namespace Telemetry.Report
open Json

/-- The reading of a report, if there is one, is read back from its text. -/
def Readable (r : Report) : Prop := ∀ x ∈ r.value, readBinary64? (writeBinary64 x) = some x

instance (r : Report) : Decidable r.Readable := by
  unfold Readable
  infer_instance

variable {r : Report} {rs : List Report}

theorem isFinite_of_read {x : Binary64} (h : readBinary64? (writeBinary64 x) = some x) : x.isFinite := by
  by_contra hx
  have hnull : readBinary64? null = none := rfl
  rw [writeBinary64, if_neg hx, hnull] at h
  cases h

theorem isToken_toMembers (h : r.Readable) : ∀ m ∈ r.toMembers, IsToken m.2 := by
  intro m hm
  simp only [toMembers, List.mem_append, List.mem_cons, List.not_mem_nil, or_false,
    Option.mem_toList, Option.map_eq_some_iff] at hm
  rcases hm with ((rfl | rfl) | ⟨n, -, rfl⟩) | ⟨x, hx, rfl⟩
  · exact .string (isString_quote _)
  · exact .string (isString_quote _)
  · exact isToken_writeInt64 n
  · exact isToken_writeBinary64 (isFinite_of_read (h x hx))

def members (r : Report) : List (Bytes × Tree) := r.toMembers.map fun m => (quote m.1, .token m.2)

theorem hasText_toJson (h : r.Readable) : (Tree.object r.members).HasText r.toJson :=
  Tree.hasText_object (isToken_toMembers h)

theorem isValue_toJson (h : r.Readable) : IsValue r.toJson := (hasText_toJson h).isValue

theorem madeOf_members (h : r.Readable) : r.MadeOf r.members := by
  obtain ⟨id, kind, delta, value⟩ := r
  have hdelta : ∀ n, readOptional? readInt64? (writeInt64 n) = some (some n) :=
    fun n => readOptional?_of_read rfl (readInt64?_writeInt64 n)
  have hvalue : ∀ x ∈ value, readOptional? readBinary64? (writeBinary64 x) = some (some x) :=
    fun x hx => readOptional?_of_read rfl (h x hx)
  rcases delta with _ | n <;> rcases value with _ | x <;>
    simp [madeOf_iff, members, toMembers, named, unquote?_quote, atMostOne?, Tree.readToken?,
      kindOfTree?, hdelta, hvalue]

theorem ofValue?_toJson (h : r.Readable) : ofValue? r.toJson = some r :=
  (ofValue?_eq_some_iff (hasText_toJson h)).2 (madeOf_members h)

theorem ofJson?_toJson (h : r.Readable) : ofJson? r.toJson = some r := by
  rw [ofJson?, document?_of_isValue (isValue_toJson h)]
  exact ofValue?_toJson h

theorem listOfJson?_append_blanks (h : ∀ r ∈ rs, Readable r) (blanks : Bytes)
    (hblanks : ∀ b ∈ blanks, Ascii.isBlank b) : listOfJson? (listToJson rs ++ blanks) = some rs := by
  have hvalues : ∀ v ∈ rs.map toJson, IsValue v := by
    intro v hv
    obtain ⟨r, hr, rfl⟩ := List.mem_map.1 hv
    exact isValue_toJson (h r hr)
  rw [listOfJson?, listToJson, document?_append_blanks (isValue_array hvalues) ⟨blanks, hblanks⟩]
  have hread : (rs.map toJson).mapM ofValue? = some rs :=
    mapM_map_eq_self fun r hr => ofValue?_toJson (h r hr)
  simp [elements?_array hvalues, hread]

theorem listOfJson?_listToJson (h : ∀ r ∈ rs, Readable r) : listOfJson? (listToJson rs) = some rs := by
  simpa using listOfJson?_append_blanks h [] (by simp)

end Telemetry.Report
