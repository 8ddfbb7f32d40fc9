import Telemetry.Proofs.Metric.ReportJson
import Telemetry.Proofs.Metric.Reports

/-!
The wire format of reports as a whole: what is written is read back, what an object says does not depend
on how it is written, and reports stand for metrics and records without loss.
-/
namespace Telemetry.Report
open Json

section Sample

def quoted : Report := ⟨"a\"b\\\n", .counter, some (-5), none⟩

def oneBlank : Blanks := ⟨[Ascii.space], List.forall_mem_singleton.2 rfl⟩

def nested : Member where
  key := .tight (quote "more")
  tree := .array [.token (Bytes.ofText "-1.5e+5"), .object [(quote "x", .token null)]]
  layout := ⟨oneBlank, Bytes.ofText "[-1.5e+5 , \x7b\"x\": null\x7d]", .empty⟩

theorem hasText_nested : nested.tree.HasText nested.layout.text := by
  have hdigits : IsDigits [53] := ⟨by simp, List.forall_mem_singleton.2 rfl⟩
  have hwhole : IsWhole (Bytes.ofText "1") := .positive rfl (by decide) (by simp)
  have hfraction : IsFraction (Bytes.ofText ".5") := .point hdigits
  have hexponent : IsExponent (Bytes.ofText "e+5") := .mark (.inl rfl) (.inr (.inl rfl)) hdigits
  have hnumber : IsToken (Bytes.ofText "-1.5e+5") := .minus (.mk hwhole hfraction hexponent)
  have hobject : (Tree.object [(quote "x", .token null)]).HasText (Bytes.ofText "\x7b\"x\": null\x7d") :=
    .object [⟨.tight (quote "x"), .token null, ⟨oneBlank, null, .empty⟩⟩]
      (by simpa using isString_quote "x") (by simpa using .token .null)
  exact .array [⟨.token (Bytes.ofText "-1.5e+5"), ⟨.empty, Bytes.ofText "-1.5e+5", oneBlank⟩⟩,
      ⟨.object [(quote "x", .token null)], ⟨oneBlank, Bytes.ofText "\x7b\"x\": null\x7d", .empty⟩⟩]
    (by simpa using ⟨.token hnumber, hobject⟩)

def known (name : String) (value : Bytes) : Member := ⟨.tight (quote name), .token value, .tight value⟩

/-- The counter the other way round, with null for its reading and a member that is not known. -/
def rearranged : List Member :=
  [known "delta" (Bytes.ofText "-5"), known "type" (quote "counter"), known "id" (quote quoted.id),
    known "value" null, nested]

def rearrangedText : Bytes :=
  Bytes.ofText ("\x7b\"delta\":-5,\"type\":\"counter\",\"id\":\"a\\\"b\\\\\\n\",\"value\":null," ++
    "\"more\": [-1.5e+5 , \x7b\"x\": null\x7d]\x7d")

theorem writeInt64_neg_five : writeInt64 (-5) = Bytes.ofText "-5" := by decide +kernel

theorem hasText_rearranged : (Tree.object (rearranged.map Member.toPair)).HasText rearrangedText := by
  refine .object rearranged ?_ ?_
  · simp [rearranged, known, nested, isString_quote]
  · have hdelta : IsToken (Bytes.ofText "-5") := writeInt64_neg_five ▸ isToken_writeInt64 (-5)
    simpa [rearranged, known] using
      ⟨.token hdelta, .token (.string (isString_quote _)), .token (.string (isString_quote _)),
        .token .null, hasText_nested⟩

theorem rewritten_rearranged : Rewritten quoted.members (rearranged.map Member.toPair) := by
  have hvalue : Rewritten quoted.members ((quote "value", .token null) :: quoted.members) :=
    .absent (.inr rfl) (unquote?_quote _) (by simp [quoted, members, toMembers, unquote?_quote])
  have hmore : Rewritten ((quote "value", .token null) :: quoted.members)
      (nested.toPair :: (quote "value", .token null) :: quoted.members) :=
    .unknown (unquote?_quote "more") (by decide) nested.tree
  have hreverse : rearranged.map Member.toPair =
      (nested.toPair :: (quote "value", .token null) :: quoted.members).reverse := by
    simp [rearranged, known, quoted, members, toMembers, Member.toPair, writeInt64_neg_five, Kind.text]
  rw [hreverse]
  exact (hvalue.trans hmore).trans (.reordered (List.reverse_perm _).symm)

end Sample

/-- Reports, alone and in lists, are read back from their JSON. An object text is read alike however its
members are laid out and rewritten, with unknown members of any depth, and is refused with a known
field that stands twice. From a metric and back, and from a report to a record and back, nothing
changes. -/
theorem wire_format :
    (∀ r : Report, r.Readable → ofJson? r.toJson = some r) ∧
    (∀ rs : List Report, (∀ r ∈ rs, r.Readable) → listOfJson? (listToJson rs) = some rs) ∧
    (∀ r : Report, r.Readable → (Tree.object r.members).HasText r.toJson) ∧
    (∀ ms ms' : List (Bytes × Tree), Rewritten ms ms' → ∀ d d' : Spaced,
      (Tree.object ms).HasText d.text → (Tree.object ms').HasText d'.text →
        ofJson? d'.toBytes = ofJson? d.toBytes) ∧
    (∀ (ms : List (Bytes × Tree)) (d : Spaced), (Tree.object ms).HasText d.text →
      ∀ name ∈ fieldNames, ∀ m m' : Bytes × Tree, [m, m'].Sublist ms →
        unquote? m.1 = some name → unquote? m'.1 = some name → ofJson? d.toBytes = none) ∧
    (∀ m : Metric, m.Reachable → (ofMetric m).toMetric = .ok m) ∧
    (∀ r : Report, ofRecord r.toRecord = .ok r) := by
  refine ⟨fun r hr => ofJson?_toJson hr, fun rs hrs => listOfJson?_listToJson hrs,
    fun r hr => hasText_toJson hr, fun ms ms' h d d' hd hd' => ofJson?_rewritten h hd hd', ?_,
    fun m hm => toMetric_ofMetric hm.wellFormed, ofRecord_toRecord⟩
  intro ms d hd name hname m m' hsub hm hm'
  exact ofJson?_repeated hd hsub hname hm hm'

theorem wire_format_rearranged :
    quoted.Readable ∧ ofJson? quoted.toJson = some quoted ∧
    listOfJson? (listToJson [quoted, quoted]) = some [quoted, quoted] ∧
    ofJson? (Spaced.mk oneBlank rearrangedText oneBlank).toBytes = some quoted ∧
    ofJson? (Spaced.tight (Bytes.ofText "\x7b\"id\":\"a\",\"id\":\"a\"\x7d")).toBytes = none ∧
    (ofMetric ⟨"PollCount", .counter 5⟩).toMetric = .ok ⟨"PollCount", .counter 5⟩ ∧
    ofRecord quoted.toRecord = .ok quoted := by
  obtain ⟨hjson, hlist, htext, hrewritten, hrepeated, hmetric, hrecord⟩ := wire_format
  have hreadable : quoted.Readable := by decide
  have hread := hjson quoted hreadable
  have hid : ∀ m ∈ [known "id" (quote "a"), known "id" (quote "a")], IsString m.key.text := by
    simp [known, isString_quote]
  have htwice : (Tree.object ([known "id" (quote "a"), known "id" (quote "a")].map Member.toPair)).HasText
      (Bytes.ofText "\x7b\"id\":\"a\",\"id\":\"a\"\x7d") :=
    .object _ hid (by simpa [known] using .token (.string (isString_quote "a")))
  refine ⟨hreadable, hread, hlist _ (by simp [hreadable]), ?_, ?_, ?_, hrecord quoted⟩
  · have hsame := hrewritten _ _ rewritten_rearranged (.tight quoted.toJson)
      ⟨oneBlank, rearrangedText, oneBlank⟩ (htext quoted hreadable) hasText_rearranged
    rw [hsame, Spaced.toBytes_tight]
    exact hread
  · exact hrepeated _ _ htwice "id" (by decide) _ _ (.refl _) (unquote?_quote "id") (unquote?_quote "id")
  · have hfresh : Metric.fresh .counter "PollCount" = .ok ⟨"PollCount", .counter 0⟩ := by decide
    have hupdate : (Metric.mk "PollCount" (.counter 0)).update (.int 5) = .ok ⟨"PollCount", .counter 5⟩ := by
      decide
    exact hmetric _ (.update (.fresh hfresh) hupdate)

end Telemetry.Report
