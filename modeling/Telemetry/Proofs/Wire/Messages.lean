import Telemetry.Proofs.Wire.Fields
import Telemetry.Wire.Message

/-!
Messages that have been written are read back, an empty text that is left out as the one that reading
starts from, and an absent number as absent. Fields with other numbers may stand anywhere between the
fields of a message, also of a message within a message.
-/
namespace Telemetry

namespace Wire

/-- The second text has the fields of the first, some of them replaced by alike ones, and in between any
others whose numbers are not known. -/
inductive Widens (known : List Nat) (alike : Field → Field → Prop) : Bytes → Bytes → Prop
  | nil : Widens known alike [] []
  | keep {f f' : Field} {a a' bs bs' : Bytes} (hf : IsField f a) (hf' : IsField f' a')
      (halike : alike f f') (h : Widens known alike bs bs') : Widens known alike (a ++ bs) (a' ++ bs')
  | insert {f : Field} {u bs bs' : Bytes} (hf : IsField f u) (hunknown : f.number ∉ known)
      (h : Widens known alike bs bs') : Widens known alike bs (u ++ bs')

section
variable {known : List Nat} {alike : Field → Field → Prop} {fs : List Field} {a b u bs bs' : Bytes}

theorem IsMessage.widens (hrefl : ∀ f, alike f f) (h : IsMessage fs bs) : Widens known alike bs bs := by
  induction h with
  | nil => exact .nil
  | cons hf _ ih => exact .keep hf hf (hrefl _) ih

theorem IsMessage.widens_behind {us gs : List Field} (hrefl : ∀ f, alike f f) (hu : IsMessage us u)
    (hunknown : ∀ f ∈ us, f.number ∉ known) (hb : IsMessage gs b) : Widens known alike b (u ++ b) := by
  induction hu with
  | nil => exact hb.widens hrefl
  | cons hf _ ih =>
    obtain ⟨hf', hrest⟩ := List.forall_mem_cons.1 hunknown
    rw [List.append_assoc]
    exact .insert hf hf' (ih hrest)

theorem IsMessage.widens_insert {us gs : List Field} (hrefl : ∀ f, alike f f) (ha : IsMessage fs a)
    (hu : IsMessage us u) (hunknown : ∀ f ∈ us, f.number ∉ known) (hb : IsMessage gs b) :
    Widens known alike (a ++ b) (a ++ (u ++ b)) := by
  induction ha with
  | nil => exact hu.widens_behind hrefl hunknown hb
  | cons hf _ ih =>
    rw [List.append_assoc, List.append_assoc]
    exact .keep hf hf (hrefl _) ih

/-- A reader that passes over the fields that it does not know, and does not tell alike fields apart,
reads both texts alike. -/
theorem Widens.foldlM_eq {σ : Type} {add : σ → Field → Option σ} (h : Widens known alike bs bs')
    (hunknown : ∀ s f, f.number ∉ known → add s f = some s)
    (halike : ∀ s f f', alike f f' → add s f' = add s f) (limit : Nat) (s : σ) :
    ((fields? limit bs').bind fun fs => fs.foldlM add s) =
      (fields? limit bs).bind fun fs => fs.foldlM add s := by
  have hfields : ∃ fs fs', IsMessage fs bs ∧ IsMessage fs' bs' ∧
      ∀ s, fs'.foldlM add s = fs.foldlM add s := by
    induction h with
    | nil => exact ⟨[], [], .nil, .nil, fun _ => rfl⟩
    | @keep f f' _ _ _ _ hf hf' hff' _ ih =>
      obtain ⟨fs, fs', hfs, hfs', hsame⟩ := ih
      refine ⟨f :: fs, f' :: fs', .cons hf hfs, .cons hf' hfs', fun s => ?_⟩
      rw [List.foldlM_cons, List.foldlM_cons, halike s f f' hff']
      exact congrArg _ (funext hsame)
    | @insert f _ _ _ hf hnot _ ih =>
      obtain ⟨fs, fs', hfs, hfs', hsame⟩ := ih
      refine ⟨fs, f :: fs', hfs, .cons hf hfs', fun s => ?_⟩
      rw [List.foldlM_cons, hunknown s f hnot]
      exact hsame s
  obtain ⟨fs, fs', hfs, hfs', hsame⟩ := hfields
  rw [hfs.fields?_eq, hfs'.fields?_eq]
  exact hsame s

end

/-- Messages are read back, and fields with other numbers than the known ones change nothing. A length is
a 64-bit number, so the text of a message has fewer bytes than that. -/
structure RoundTrips {α : Type} (encode : α → Bytes) (decode? : Bytes → Option α) (known : List Nat)
    (alike : Field → Field → Prop) : Prop where
  read : ∀ a, (encode a).length < 2 ^ 64 → decode? (encode a) = some a
  /-- A message is written as fields one behind the other. -/
  whole : ∀ a, (encode a).length < 2 ^ 64 → ∃ fs, IsMessage fs (encode a)
  /-- Wherever one field ends and the next begins, others can be put in. -/
  inserted : ∀ {fs us gs a u b}, IsMessage fs a → IsMessage us u → (∀ f ∈ us, f.number ∉ known) →
    IsMessage gs b → decode? (a ++ (u ++ b)) = decode? (a ++ b)
  widened : ∀ {bs bs'}, Widens known alike bs bs' → decode? bs' = decode? bs

end Wire

namespace UpdateRequest
open Wire

def fields (r : UpdateRequest) : List Field :=
  stringFields 1 r.kind ++ stringFields 2 r.name ++ stringFields 3 r.value

def known : List Nat := [1, 2, 3]

theorem isMessage_encode {r : UpdateRequest} (h : r.encode.length < 2 ^ 64) :
    IsMessage r.fields r.encode := by
  simp only [encode, List.length_append] at h
  have hkind : IsMessage (stringFields 1 r.kind) _ :=
    isMessage_writeString (by decide) (by decide) (by omega)
  have hname : IsMessage (stringFields 2 r.name) _ :=
    isMessage_writeString (by decide) (by decide) (by omega)
  have hvalue : IsMessage (stringFields 3 r.value) _ :=
    isMessage_writeString (by decide) (by decide) (by omega)
  exact (hkind.append hname).append hvalue

theorem decode?_encode {r : UpdateRequest} (h : r.encode.length < 2 ^ 64) :
    decode? r.encode = some r := by
  rw [decode?, (isMessage_encode h).fields?_eq]
  obtain ⟨kind, name, value⟩ := r
  by_cases hk : kind = "" <;> by_cases hn : name = "" <;> by_cases hv : value = "" <;>
    simp [fields, stringFields, hk, hn, hv, addField?, Payload.string?]

theorem addField?_unknown (r : UpdateRequest) {f : Field} (h : f.number ∉ known) :
    addField? r f = some r := by
  simp only [known, List.mem_cons, List.not_mem_nil, or_false, not_or] at h
  unfold addField?
  split
  · next hf => exact absurd hf h.1
  · next hf => exact absurd hf h.2.1
  · next hf => exact absurd hf h.2.2
  · rfl

theorem decode?_widened {bs bs' : Bytes} (h : Widens known Eq bs bs') : decode? bs' = decode? bs :=
  h.foldlM_eq (fun r _ => addField?_unknown r) (fun _ _ _ hff' => hff' ▸ rfl) maxDepth _

theorem roundTrips : RoundTrips encode decode? known Eq where
  read _ h := decode?_encode h
  whole _ h := ⟨_, isMessage_encode h⟩
  inserted ha hu hunknown hb := decode?_widened (ha.widens_insert (fun _ => rfl) hu hunknown hb)
  widened h := decode?_widened h

end UpdateRequest

namespace Record
open Wire

def fields (r : Record) : List Field :=
  stringFields 1 r.id ++ stringFields 2 r.kind ++
    (match r.delta with
      | some n => [⟨3, .varint n.toUInt64.toNat⟩]
      | none => []) ++
    (match r.value with
      | some x => [⟨4, .word64 (Bytes.littleEndian 8 x.toBits)⟩]
      | none => [])

def known : List Nat := [1, 2, 3, 4]

theorem isMessage_encode {r : Record} (h : r.encode.length < 2 ^ 64) : IsMessage r.fields r.encode := by
  simp only [encode, List.length_append] at h
  have hid : IsMessage (stringFields 1 r.id) _ :=
    isMessage_writeString (by decide) (by decide) (by omega)
  have hkind : IsMessage (stringFields 2 r.kind) _ :=
    isMessage_writeString (by decide) (by decide) (by omega)
  refine ((hid.append hkind).append ?_).append ?_
  · cases r.delta with
    | none => exact .nil
    | some n => exact (isField_writeVarint (by decide) (by decide) (UInt64.toNat_lt _)).isMessage
  · cases r.value with
    | none => exact .nil
    | some x => exact (isField_writeWord64 (by decide) (by decide) _).isMessage

/-- A signed number survives as the unsigned one with the same bits. -/
theorem int64?_varint (n : Int64) : (Payload.varint n.toUInt64.toNat).int64? = some n := by
  refine congrArg some (Int64.toBitVec_inj.1 ?_)
  rw [Int64.toBitVec_ofInt, BitVec.ofInt_natCast]
  simp

theorem binary64?_word64 (x : Binary64) :
    (Payload.word64 (Bytes.littleEndian 8 x.toBits)).binary64? = some x := by
  rw [Payload.binary64?, Bytes.ofLittleEndian_littleEndian _ _ x.toBits_lt, Binary64.ofBits_toBits]

theorem decode?_encode {r : Record} (h : r.encode.length < 2 ^ 64) (depth : Nat) :
    decode? depth r.encode = some r := by
  rw [decode?, (isMessage_encode h).fields?_eq]
  obtain ⟨id, kind, delta, value⟩ := r
  by_cases hid : id = "" <;> by_cases hk : kind = "" <;> cases delta <;> cases value <;>
    simp [fields, stringFields, hid, hk, addField?, Payload.string?, int64?_varint, binary64?_word64]

theorem addField?_unknown (r : Record) {f : Field} (h : f.number ∉ known) :
    addField? r f = some r := by
  simp only [known, List.mem_cons, List.not_mem_nil, or_false, not_or] at h
  unfold addField?
  split
  · next hf => exact absurd hf h.1
  · next hf => exact absurd hf h.2.1
  · next hf => exact absurd hf h.2.2.1
  · next hf => exact absurd hf h.2.2.2
  · rfl

theorem decode?_widened {bs bs' : Bytes} (h : Widens known Eq bs bs') (depth : Nat) :
    decode? depth bs' = decode? depth bs :=
  h.foldlM_eq (fun r _ => addField?_unknown r) (fun _ _ _ hff' => hff' ▸ rfl) depth _

theorem roundTrips (depth : Nat) : RoundTrips encode (decode? depth) known Eq where
  read _ h := decode?_encode h depth
  whole _ h := ⟨_, isMessage_encode h⟩
  inserted ha hu hunknown hb := decode?_widened (ha.widens_insert (fun _ => rfl) hu hunknown hb) depth
  widened h := decode?_widened h depth

/-- The same field, or one with a record into which fields that it does not know have been put. -/
inductive Alike : Field → Field → Prop
  | same (f : Field) : Alike f f
  | record {b b' : Bytes} (h : Widens known Eq b b') : Alike ⟨1, .text b⟩ ⟨1, .text b'⟩

def knownInList : List Nat := [1]

theorem isMessage_encodeList {rs : List Record} (h : (encodeList rs).length < 2 ^ 64) :
    IsMessage (rs.map fun r => ⟨1, .text r.encode⟩) (encodeList rs) := by
  induction rs with
  | nil => exact .nil
  | cons r rs ih =>
    simp only [encodeList, List.flatMap_cons, List.length_append] at h ih ⊢
    have hr : r.encode.length < 2 ^ 64 := by
      rw [writeText, List.length_append] at h
      omega
    exact .cons (isField_writeText (by decide) (by decide) hr) (ih (by omega))

theorem length_encode_le {rs : List Record} {r : Record} (h : r ∈ rs) :
    r.encode.length ≤ (encodeList rs).length := by
  induction rs with
  | nil => cases h
  | cons a rs ih =>
    simp only [encodeList, List.flatMap_cons, List.length_append] at ih ⊢
    rcases List.mem_cons.1 h with rfl | h
    · rw [writeText, List.length_append]
      omega
    · exact Nat.le_trans (ih h) (Nat.le_add_left _ _)

/-- Records are read one after another, the last first in what has been read. -/
theorem foldlM_addRecord? {rs : List Record} (h : ∀ r ∈ rs, r.encode.length < 2 ^ 64)
    (read : List Record) :
    (rs.map fun r => (⟨1, .text r.encode⟩ : Field)).foldlM addRecord? read =
      some (rs.reverse ++ read) := by
  induction rs generalizing read with
  | nil => rfl
  | cons r rs ih =>
    obtain ⟨hr, hrs⟩ := List.forall_mem_cons.1 h
    have hadd : addRecord? read ⟨1, .text r.encode⟩ = some (r :: read) := by
      simp [addRecord?, Payload.bytes?, decode?_encode hr]
    rw [List.map_cons, List.foldlM_cons, hadd]
    simpa using ih hrs (r :: read)

theorem decodeList?_encodeList {rs : List Record} (h : (encodeList rs).length < 2 ^ 64) :
    decodeList? (encodeList rs) = some rs := by
  have hlength : ∀ r ∈ rs, r.encode.length < 2 ^ 64 :=
    fun r hr => Nat.lt_of_le_of_lt (length_encode_le hr) h
  rw [decodeList?, (isMessage_encodeList h).fields?_eq, Option.bind_some, foldlM_addRecord? hlength]
  simp

theorem addRecord?_alike (rs : List Record) {f f' : Field} (h : Alike f f') :
    addRecord? rs f' = addRecord? rs f := by
  cases h with
  | same => rfl
  | record h => simp [addRecord?, Payload.bytes?, decode?_widened h]

theorem decodeList?_widened {bs bs' : Bytes} (h : Widens knownInList Alike bs bs') :
    decodeList? bs' = decodeList? bs := by
  refine congrArg (Option.map List.reverse) (h.foldlM_eq (fun rs f hf => ?_) ?_ maxDepth [])
  · rw [knownInList, List.mem_singleton] at hf
    unfold addRecord?
    split
    · next hone => exact absurd hone hf
    · rfl
  · exact fun rs f f' hff' => addRecord?_alike rs hff'

theorem roundTrips_list : RoundTrips encodeList decodeList? knownInList Alike where
  read _ h := decodeList?_encodeList h
  whole _ h := ⟨_, isMessage_encodeList h⟩
  inserted ha hu hunknown hb := decodeList?_widened (ha.widens_insert .same hu hunknown hb)
  widened h := decodeList?_widened h

end Record

namespace Wire

/-- All messages are read back, and fields that are not known change nothing wherever they stand. -/
theorem messages_roundTrip :
    RoundTrips UpdateRequest.encode UpdateRequest.decode? UpdateRequest.known Eq ∧
    (∀ depth, RoundTrips Record.encode (Record.decode? depth) Record.known Eq) ∧
    RoundTrips Record.encodeList Record.decodeList? Record.knownInList Record.Alike :=
  ⟨UpdateRequest.roundTrips, Record.roundTrips, Record.roundTrips_list⟩

/-- A record with a field 9 behind its own ones, a field 2 of four bytes, and a second record are read as
the two records. -/
theorem messages_roundTrip_unknownFields :
    let r₁ : Record := ⟨"a", "counter", some (-1), none⟩
    let r₂ : Record := ⟨"b", "gauge", none, some (.zero true)⟩
    Record.decodeList? (writeText 1 (r₁.encode ++ writeVarint 9 300) ++
      (varint 21 ++ [1, 2, 3, 4] ++ writeText 1 r₂.encode)) = some [r₁, r₂] := by
  intro r₁ r₂
  have hlist := messages_roundTrip.2.2
  have hlong : IsField ⟨9, .varint 300⟩ (writeVarint 9 300) :=
    isField_writeVarint (by decide) (by decide) (by decide)
  have hword : IsField ⟨2, .word32 [1, 2, 3, 4]⟩ (varint 21 ++ [1, 2, 3, 4]) :=
    .word32 (isKey_varint (by decide) (by decide) (by decide)) rfl
  have hfirst : Widens Record.known Eq r₁.encode (r₁.encode ++ writeVarint 9 300) := by
    obtain ⟨fs, hfs⟩ := (messages_roundTrip.2.1 maxDepth).whole r₁ (by decide +kernel)
    simpa using hfs.widens_insert (fun _ => rfl) hlong.isMessage (by decide) .nil
  have hplain : IsField ⟨1, .text r₁.encode⟩ (writeText 1 r₁.encode) :=
    isField_writeText (by decide) (by decide) (by decide +kernel)
  have hpadded : IsField ⟨1, .text (r₁.encode ++ writeVarint 9 300)⟩ _ :=
    isField_writeText (by decide) (by decide) (by decide +kernel)
  have hsecond : IsField ⟨1, .text r₂.encode⟩ (writeText 1 r₂.encode) :=
    isField_writeText (by decide) (by decide) (by decide +kernel)
  refine Eq.trans ?_ (hlist.read [r₁, r₂] (by decide +kernel))
  refine hlist.widened (.keep hplain hpadded (.record hfirst) (.insert hword (by decide) ?_))
  simpa using hsecond.isMessage.widens .same

end Wire
end Telemetry
