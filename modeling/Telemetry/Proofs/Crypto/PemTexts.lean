import Telemetry.Crypto.Pem
import Telemetry.Proofs.Crypto.DerTexts
import Telemetry.Proofs.Crypto.Signature
import Telemetry.Proofs.Metric.Names

/-!
PEM texts that are written are read back. The content stands in base64 in lines of 64 characters between a
beginning and an ending line with the label; none of these characters ends a line.
-/
namespace Telemetry

theorem Bytes.dropEnd?_append (ending b : Bytes) : dropEnd? ending (b ++ ending) = some b := by
  rw [dropEnd?, List.reverse_append, dropBeginning?_append, Option.map_some, List.reverse_reverse]

theorem Bytes.exists_ofText_of_ascii {b : Bytes} (h : ∀ x ∈ b, x < 128) : ∃ s, ofText s = b := by
  refine ⟨String.ofList (b.map fun x => Char.ofNat x.toNat), ?_⟩
  rw [ofText_ofList, List.flatMap_map]
  induction b with
  | nil => rfl
  | cons x b ih =>
    obtain ⟨hx, hb⟩ := List.forall_mem_cons.1 h
    have hlt : x.toNat < 128 := UInt8.lt_iff_toNat_lt.1 hx
    have hvalid : (Char.ofNat x.toNat).toNat = x.toNat := by
      have hall : ∀ n < 128, (Char.ofNat n).toNat = n := by decide
      exact hall x.toNat hlt
    rw [List.flatMap_cons, ih hb, utf8EncodeChar_of_ascii (hvalid.symm ▸ hlt), hvalid, UInt8.ofNat_toNat]
    rfl

namespace Ascii

theorem toNat_ofChar {c : Char} (h : c.toNat < 128) : (ofChar c).toNat = c.toNat := by
  rw [ofChar, UInt8.toNat_ofNat']
  omega

theorem ofNat_ofChar {c : Char} (h : c.toNat < 128) : Char.ofNat (ofChar c).toNat = c := by
  rw [toNat_ofChar h, Char.ofNat_toNat]

end Ascii

namespace Base64

theorem ascii_of_mem_encode {bs : Bytes} {c : Char} (h : c ∈ encode bs) : c.toNat < 128 := by
  have hall : ∀ n < 64, (symbol n).toNat < 128 := by decide
  rcases mem_encode h with rfl | ⟨n, hn, rfl⟩
  · decide
  · exact hall n hn

theorem ne_lineEnd_of_mem {bs : Bytes} {b : UInt8} (h : b ∈ Ascii.ofChars (encode bs)) :
    b ≠ Ascii.lineFeed ∧ b ≠ Ascii.carriageReturn ∧ b < 128 := by
  have hall : ∀ n < 64, Ascii.ofChar (symbol n) ≠ Ascii.lineFeed ∧ Ascii.ofChar (symbol n) ≠ Ascii.carriageReturn ∧
      Ascii.ofChar (symbol n) < 128 := by decide
  obtain ⟨c, hc, rfl⟩ := List.mem_map.1 h
  rcases mem_encode hc with rfl | ⟨n, hn, rfl⟩
  · decide
  · exact hall n hn

theorem map_ofChars_encode (bs : Bytes) :
    (Ascii.ofChars (encode bs)).map (fun b => Char.ofNat b.toNat) = encode bs := by
  rw [Ascii.ofChars, List.map_map]
  conv => rhs; rw [← List.map_id (encode bs)]
  exact List.map_congr_left fun c hc => Ascii.ofNat_ofChar (ascii_of_mem_encode hc)

theorem encode_ne_nil {bs : Bytes} (h : bs ≠ []) : encode bs ≠ [] := by
  intro hnil
  have hdecode := decode?_encode bs
  rw [hnil] at hdecode
  exact h (Option.some.inj hdecode).symm

end Base64

namespace Pem

/-- Lines of 64 bytes, with nothing behind the last of them. -/
def wrap (bs : Bytes) : Bytes :=
  if bs.length ≤ 64 then bs else bs.take 64 ++ Ascii.lineFeed :: wrap (bs.drop 64)
termination_by bs.length

def frame (label body : Bytes) : Bytes :=
  beginMark ++ label ++ dashes ++ Ascii.lineFeed ::
    (body ++ Ascii.lineFeed :: (endMark ++ label ++ dashes ++ [Ascii.lineFeed]))

def write (label content : Bytes) : Bytes := frame label (wrap (Ascii.ofChars (Base64.encode content)))

section Lines
variable {bs body label : Bytes} {b : UInt8}

theorem mem_wrap (h : b ∈ wrap bs) : b = Ascii.lineFeed ∨ b ∈ bs := by
  induction bs using wrap.induct with
  | case1 bs hshort =>
    rw [wrap, if_pos hshort] at h
    exact .inr h
  | case2 bs hlong ih =>
    rw [wrap, if_neg hlong] at h
    rcases List.mem_append.1 h with h | h
    · exact .inr (List.mem_of_mem_take h)
    · rcases List.mem_cons.1 h with rfl | h
      · exact .inl rfl
      · exact (ih h).imp_right List.mem_of_mem_drop

theorem wrap_ne_nil (h : bs ≠ []) : wrap bs ≠ [] := by
  rw [wrap]
  split
  · exact h
  · simp

theorem length_le_wrap (bs : Bytes) : bs.length ≤ (wrap bs).length := by
  induction bs using wrap.induct with
  | case1 bs hshort => exact Nat.le_of_eq (by rw [wrap, if_pos hshort])
  | case2 bs hlong ih =>
    rw [List.length_drop] at ih
    rw [wrap, if_neg hlong, List.length_append, List.length_cons, List.length_take]
    omega

theorem dropLineEnd?_lineFeed (rest : Bytes) : dropLineEnd? (Ascii.lineFeed :: rest) = some rest := rfl

theorem dropLastLineEnd?_append (h : Ascii.carriageReturn ∉ bs) :
    dropLastLineEnd? (bs ++ [Ascii.lineFeed]) = some bs := by
  have hreverse : (bs ++ [Ascii.lineFeed]).reverse = Ascii.lineFeed :: bs.reverse := by simp
  unfold dropLastLineEnd?
  rw [hreverse]
  split
  · next rest heq =>
    have hmem : Ascii.carriageReturn ∈ bs.reverse := by simp [(List.cons.inj heq).2]
    exact absurd (List.mem_reverse.1 hmem) h
  · next rest _ heq => rw [← (List.cons.inj heq).2, List.reverse_reverse]
  · next heq => exact absurd (List.cons.inj heq).1 (by decide)
  · next hnone _ => exact absurd rfl (hnone bs.reverse)

theorem dropLastLineEnd?_eq_none (h : ∀ b ∈ bs, b ≠ Ascii.lineFeed ∧ b ≠ Ascii.carriageReturn) :
    dropLastLineEnd? bs = none := by
  have hlast : ∀ b rest, bs.reverse = b :: rest → b ≠ Ascii.lineFeed ∧ b ≠ Ascii.carriageReturn := by
    intro b rest heq
    exact h b (List.mem_reverse.1 (heq ▸ List.mem_cons_self))
  unfold dropLastLineEnd?
  split
  · next heq => exact absurd rfl (hlast _ _ heq).1
  · next heq => exact absurd rfl (hlast _ _ heq).1
  · next heq => exact absurd rfl (hlast _ _ heq).2
  · rfl

theorem joinLines?_wrap (h : ∀ b ∈ bs, b ≠ Ascii.lineFeed ∧ b ≠ Ascii.carriageReturn) {fuel : Nat}
    (hfuel : bs.length < fuel) : joinLines? fuel (wrap bs) = some bs := by
  -- a step of fuel is spent on each line, and every line but the last takes 64 bytes away
  induction bs using wrap.induct generalizing fuel with
  | case1 bs hshort =>
    cases fuel with
    | zero => cases hfuel
    | succ fuel =>
      rw [wrap, if_pos hshort, joinLines?, if_pos hshort, dropLastLineEnd?_eq_none h]
      rfl
  | case2 bs hlong ih =>
    cases fuel with
    | zero => cases hfuel
    | succ fuel =>
      have htake : (bs.take 64).length = 64 := List.length_take_of_le (by omega)
      have hlonger : ¬ (bs.take 64 ++ Ascii.lineFeed :: wrap (bs.drop 64)).length ≤ 64 := by
        rw [List.length_append, List.length_cons, htake]
        omega
      have hrest : joinLines? fuel (wrap (bs.drop 64)) = some (bs.drop 64) :=
        ih (fun b hb => h b (List.mem_of_mem_drop hb)) (by rw [List.length_drop]; omega)
      rw [wrap, if_neg hlong, joinLines?, if_neg hlonger, List.drop_left' htake, List.take_left' htake]
      simp [dropLineEnd?_lineFeed, hrest]

end Lines

section Frames
variable {label body : Bytes}

theorem dropPreamble?_frame (label body : Bytes) :
    dropPreamble? true (frame label body) = some (frame label body) := by
  obtain ⟨rest, hframe⟩ : ∃ rest, frame label body = beginMark ++ rest := by
    simp only [frame, List.append_assoc]
    exact ⟨_, rfl⟩
  have hprefix : beginMark.isPrefixOf (beginMark ++ rest) = true :=
    List.isPrefixOf_iff_prefix.2 (List.prefix_append _ _)
  obtain ⟨b, bs, hmark⟩ := List.exists_cons_of_ne_nil (show beginMark ≠ [] by decide +kernel)
  rw [hframe]
  rw [hmark, List.cons_append] at hprefix ⊢
  rw [dropPreamble?, hmark, hprefix]
  rfl

/-- The body of a text is found again, whatever lines it has. -/
theorem body?_frame (hlabel : Ascii.carriageReturn ∉ label) (hbody : Ascii.carriageReturn ∉ body) :
    body? label (frame label body) = some body := by
  have hbeginning := Bytes.dropBeginning?_append (beginMark ++ label ++ dashes)
    (Ascii.lineFeed :: (body ++ Ascii.lineFeed :: (endMark ++ label ++ dashes ++ [Ascii.lineFeed])))
  have hending : Ascii.carriageReturn ∉ body ++ Ascii.lineFeed :: (endMark ++ label ++ dashes) := by
    have hmarks : Ascii.carriageReturn ∉ endMark ∧ Ascii.carriageReturn ∉ dashes := by decide +kernel
    have hfeed : Ascii.carriageReturn ≠ Ascii.lineFeed := by decide
    simp [hbody, hlabel, hmarks, hfeed]
  have hlast : dropLastLineEnd? (body ++ Ascii.lineFeed :: (endMark ++ label ++ dashes ++ [Ascii.lineFeed])) =
      some (body ++ Ascii.lineFeed :: (endMark ++ label ++ dashes)) := by
    rw [← dropLastLineEnd?_append hending]
    simp
  have hend : Bytes.dropEnd? (endMark ++ label ++ dashes) (body ++ Ascii.lineFeed :: (endMark ++ label ++ dashes)) =
      some (body ++ [Ascii.lineFeed]) := by
    rw [← Bytes.dropEnd?_append (endMark ++ label ++ dashes)]
    simp
  rw [body?, dropPreamble?_frame, frame]
  simp only [Option.bind_eq_bind, Option.bind_some, hbeginning, dropLineEnd?_lineFeed, hlast, Option.getD_some,
    hend, dropLastLineEnd?_append hbody]

theorem body?_frame_of_ne {a b : UInt8} (h : a ≠ b) (as bs body : Bytes) :
    body? (a :: as) (frame (b :: bs) body) = none := by
  have hprefix : (beginMark ++ (a :: as) ++ dashes).isPrefixOf (frame (b :: bs) body) = false := by
    rw [Bool.eq_false_iff, ne_eq, List.isPrefixOf_iff_prefix]
    simp only [frame, List.append_assoc, List.prefix_append_right_inj, List.cons_append, List.cons_prefix_cons]
    exact fun hboth => h hboth.1
  have hnone : Bytes.dropBeginning? (beginMark ++ (a :: as) ++ dashes) (frame (b :: bs) body) = none := by
    rw [Bytes.dropBeginning?, hprefix]
    rfl
  rw [body?, dropPreamble?_frame]
  simp only [Option.bind_eq_bind, Option.bind_some, hnone, Option.bind_none]

theorem decode?_write {content : Bytes} (hlabel : Ascii.carriageReturn ∉ label) (hcontent : content ≠ []) :
    decode? label (write label content) = some content := by
  have hbase64 : ∀ b ∈ Ascii.ofChars (Base64.encode content), b ≠ Ascii.lineFeed ∧ b ≠ Ascii.carriageReturn :=
    fun b hb => ⟨(Base64.ne_lineEnd_of_mem hb).1, (Base64.ne_lineEnd_of_mem hb).2.1⟩
  have hreturn : Ascii.carriageReturn ∉ wrap (Ascii.ofChars (Base64.encode content)) := by
    intro hmem
    rcases mem_wrap hmem with h | h
    · exact absurd h (by decide)
    · exact (hbase64 _ h).2 rfl
  have hne : wrap (Ascii.ofChars (Base64.encode content)) ≠ [] :=
    wrap_ne_nil (by simpa [Ascii.ofChars] using Base64.encode_ne_nil hcontent)
  have hjoin := joinLines?_wrap hbase64 (Nat.lt_succ_of_le (length_le_wrap _))
  rw [decode?, write, body?_frame hlabel hreturn]
  simp [hne, hjoin, Base64.map_ofChars_encode, Base64.decode?_encode]

theorem ascii_of_mem_write {content : Bytes} (hlabel : ∀ b ∈ label, b < 128) :
    ∀ b ∈ write label content, b < 128 := by
  have hmarks : (∀ b ∈ beginMark, b < 128) ∧ (∀ b ∈ endMark, b < 128) ∧ (∀ b ∈ dashes, b < 128) := by
    decide +kernel
  have hbody : ∀ b ∈ wrap (Ascii.ofChars (Base64.encode content)), b < 128 := by
    intro b hb
    rcases mem_wrap hb with rfl | hb
    · decide
    · exact (Base64.ne_lineEnd_of_mem hb).2.2
  have hfeed : Ascii.lineFeed < 128 := by decide
  intro b hb
  simp only [write, frame, List.mem_append, List.mem_cons, List.not_mem_nil, or_false] at hb
  rcases hb with ((hb | hb) | hb) | rfl | hb | rfl | ((hb | hb) | hb) | rfl
  · exact hmarks.1 b hb
  · exact hlabel b hb
  · exact hmarks.2.2 b hb
  · exact hfeed
  · exact hbody b hb
  · exact hfeed
  · exact hmarks.2.1 b hb
  · exact hlabel b hb
  · exact hmarks.2.2 b hb
  · exact hfeed

end Frames
end Pem
end Telemetry
