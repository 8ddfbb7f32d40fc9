import Telemetry.Wire.Field

/-!
The texts of fields, stated apart from their reader. A number may be spelled with more bytes than it
needs; the reader finds exactly the fields that a text has been put together from, whatever follows.
-/
namespace Telemetry.Wire

/-- The bytes that spell a number: seven bits in each, lowest first, and the high bit set in all but the
last. -/
inductive Spells : Nat → Bytes → Prop
  | last {b : UInt8} (hb : b.toNat < 128) : Spells b.toNat [b]
  | more {b : UInt8} {n : Nat} {bs : Bytes} (hb : 128 ≤ b.toNat) (h : Spells n bs) :
      Spells (b.toNat - 128 + 128 * n) (b :: bs)

structure IsVarint (n : Nat) (bs : Bytes) : Prop where
  spells : Spells n bs
  length_le : bs.length ≤ 10
  lt : n < 2 ^ 64

/-- The bytes of a key; the form is given by its number. -/
structure IsKey (number form : Nat) (bs : Bytes) : Prop where
  number_pos : 1 ≤ number
  number_lt : number < 2 ^ 29
  varint : IsVarint (8 * number + form) bs

inductive IsField : Field → Bytes → Prop
  | varint {number n : Nat} {key bs : Bytes} (hkey : IsKey number 0 key) (h : IsVarint n bs) :
      IsField ⟨number, .varint n⟩ (key ++ bs)
  | word64 {number : Nat} {key bs : Bytes} (hkey : IsKey number 1 key) (h : bs.length = 8) :
      IsField ⟨number, .word64 bs⟩ (key ++ bs)
  | text {number : Nat} {key size bs : Bytes} (hkey : IsKey number 2 key)
      (h : IsVarint bs.length size) : IsField ⟨number, .text bs⟩ (key ++ (size ++ bs))
  | word32 {number : Nat} {key bs : Bytes} (hkey : IsKey number 5 key) (h : bs.length = 4) :
      IsField ⟨number, .word32 bs⟩ (key ++ bs)

inductive IsMessage : List Field → Bytes → Prop
  | nil : IsMessage [] []
  | cons {f : Field} {fs : List Field} {a bs : Bytes} (hf : IsField f a) (h : IsMessage fs bs) :
      IsMessage (f :: fs) (a ++ bs)

section Reading
variable {n number form left limit fuel : Nat} {f : Field} {fs gs : List Field} {a b bs : Bytes}

theorem Spells.ne_nil (h : Spells n bs) : bs ≠ [] := by
  cases h <;> exact List.cons_ne_nil _ _

theorem Spells.readVarint_append (h : Spells n bs) (hleft : bs.length ≤ left) (rest : Bytes) :
    readVarint left (bs ++ rest) = some (n, rest) := by
  induction h generalizing left with
  | @last b hb =>
    obtain ⟨left, rfl⟩ : ∃ k, left = k + 1 := ⟨left - 1, by simp at hleft; omega⟩
    rw [List.singleton_append, readVarint, if_pos (UInt8.lt_iff_toNat_lt.2 hb)]
  | @more b n bs hb _ ih =>
    rw [List.length_cons] at hleft
    obtain ⟨left, rfl⟩ : ∃ k, left = k + 1 := ⟨left - 1, by omega⟩
    have hb : ¬ b < 128 := fun h => Nat.not_lt_of_le hb (UInt8.lt_iff_toNat_lt.1 h)
    rw [List.cons_append, readVarint, if_neg hb, ih (by omega)]
    rfl

theorem IsVarint.varint?_append (h : IsVarint n bs) (rest : Bytes) :
    varint? (bs ++ rest) = some (n, rest) := by
  rw [varint?, h.spells.readVarint_append h.length_le]
  exact Option.filter_some.trans (if_pos (decide_eq_true h.lt))

theorem IsKey.key?_append {form' : Form} (h : IsKey number form a) (hform : form < 8)
    (hof : Form.ofNat? form = some form') (rest : Bytes) :
    key? (a ++ rest) = some (number, form', rest) := by
  have hpos := h.number_pos
  have hlt := h.number_lt
  have hmod : (8 * number + form) % 8 = form := by omega
  have hdiv : (8 * number + form) / 8 = number := by omega
  have hbounds : 8 * number + form < 2 ^ 32 ∧ 8 ≤ 8 * number + form := by omega
  simp only [key?, h.varint.varint?_append, hmod, hof, hdiv, if_pos hbounds, bind, Option.bind_some]

theorem take?_append (h : a.length = n) (rest : Bytes) : take? n (a ++ rest) = some (a, rest) := by
  subst h
  simp [take?]

theorem IsField.field?_append (h : IsField f a) (limit : Nat) (rest : Bytes) :
    field? limit (a ++ rest) = some (f, rest) := by
  cases h with
  | varint hkey h =>
    rw [List.append_assoc]
    simp only [field?, hkey.key?_append (by decide) rfl, payload?, h.varint?_append, bind,
      Option.bind_some, Option.map_some]
  | word64 hkey h =>
    rw [List.append_assoc]
    simp only [field?, hkey.key?_append (by decide) rfl, payload?, take?_append h, bind,
      Option.bind_some, Option.map_some]
  | text hkey h =>
    rw [List.append_assoc, List.append_assoc]
    simp only [field?, hkey.key?_append (by decide) rfl, payload?, h.varint?_append,
      take?_append rfl, bind, Option.bind_some, Option.map_some]
  | word32 hkey h =>
    rw [List.append_assoc]
    simp only [field?, hkey.key?_append (by decide) rfl, payload?, take?_append h, bind,
      Option.bind_some, Option.map_some]

theorem IsField.ne_nil (h : IsField f a) : a ≠ [] := by
  cases h with
  | varint hkey _ => exact List.append_ne_nil_of_left_ne_nil hkey.varint.spells.ne_nil _
  | word64 hkey _ => exact List.append_ne_nil_of_left_ne_nil hkey.varint.spells.ne_nil _
  | text hkey _ => exact List.append_ne_nil_of_left_ne_nil hkey.varint.spells.ne_nil _
  | word32 hkey _ => exact List.append_ne_nil_of_left_ne_nil hkey.varint.spells.ne_nil _

theorem IsMessage.fieldsFrom?_eq (h : IsMessage fs bs) (hfuel : bs.length ≤ fuel) :
    fieldsFrom? limit fuel bs = some fs := by
  induction h generalizing fuel with
  | nil => cases fuel <;> rfl
  | @cons f fs a bs hf _ ih =>
    have hpos := List.length_pos_iff.2 hf.ne_nil
    rw [List.length_append] at hfuel
    obtain ⟨fuel, rfl⟩ : ∃ k, fuel = k + 1 := ⟨fuel - 1, by omega⟩
    have hne : a ++ bs ≠ [] := List.append_ne_nil_of_left_ne_nil hf.ne_nil _
    rw [fieldsFrom?]
    · simp only [hf.field?_append, ih (by omega : bs.length ≤ fuel), bind, Option.bind_some]
    · exact hne

theorem IsMessage.fields?_eq (h : IsMessage fs bs) (limit : Nat) : fields? limit bs = some fs :=
  h.fieldsFrom?_eq (Nat.le_refl _)

theorem IsField.isMessage (h : IsField f a) : IsMessage [f] a := by
  simpa using IsMessage.cons h .nil

theorem IsMessage.append (ha : IsMessage fs a) (hb : IsMessage gs b) :
    IsMessage (fs ++ gs) (a ++ b) := by
  induction ha with
  | nil => exact hb
  | cons hf _ ih =>
    rw [List.append_assoc]
    exact .cons hf ih

end Reading

section Writing
variable {n number : Nat}

theorem spells_varint (n : Nat) : Spells n (varint n) := by
  induction n using varint.induct with
  | case1 n h =>
    have hn : (UInt8.ofNat n).toNat = n := by
      rw [UInt8.toNat_ofNat']
      omega
    have hlast := Spells.last (b := UInt8.ofNat n) (by omega)
    rw [varint, if_pos h]
    rwa [hn] at hlast
  | case2 n h ih =>
    have hn : (UInt8.ofNat (n % 128 + 128)).toNat = n % 128 + 128 := by
      rw [UInt8.toNat_ofNat']
      omega
    have hmore := Spells.more (b := UInt8.ofNat (n % 128 + 128)) (by omega) ih
    have hsum : n % 128 + 128 - 128 + 128 * (n / 128) = n := by omega
    rw [varint, if_neg h]
    rwa [hn, hsum] at hmore

theorem length_varint_le {k : Nat} (h : n < 128 ^ (k + 1)) : (varint n).length ≤ k + 1 := by
  induction k generalizing n with
  | zero =>
    rw [varint, if_pos (by omega)]
    exact Nat.le_refl 1
  | succ k ih =>
    rw [varint]
    split
    · exact Nat.succ_le_succ (Nat.zero_le _)
    · have hdiv : n / 128 < 128 ^ (k + 1) := by
        rw [Nat.div_lt_iff_lt_mul (by decide)]
        simpa [Nat.pow_succ] using h
      exact Nat.succ_le_succ (ih hdiv)

theorem isVarint_varint (h : n < 2 ^ 64) : IsVarint n (varint n) :=
  ⟨spells_varint n, length_varint_le (k := 9) (Nat.lt_of_lt_of_le h (by decide)), h⟩

theorem isKey_varint {form : Nat} (hpos : 1 ≤ number) (hlt : number < 2 ^ 29) (hform : form < 8) :
    IsKey number form (varint (8 * number + form)) :=
  ⟨hpos, hlt, isVarint_varint (by omega)⟩

theorem isField_writeVarint (hpos : 1 ≤ number) (hlt : number < 2 ^ 29) (h : n < 2 ^ 64) :
    IsField ⟨number, .varint n⟩ (writeVarint number n) :=
  .varint (isKey_varint hpos hlt (by decide)) (isVarint_varint h)

theorem isField_writeWord64 (hpos : 1 ≤ number) (hlt : number < 2 ^ 29) (n : Nat) :
    IsField ⟨number, .word64 (Bytes.littleEndian 8 n)⟩ (writeWord64 number n) :=
  .word64 (isKey_varint hpos hlt (by decide)) (Bytes.length_littleEndian 8 n)

theorem isField_writeText {b : Bytes} (hpos : 1 ≤ number) (hlt : number < 2 ^ 29)
    (h : b.length < 2 ^ 64) : IsField ⟨number, .text b⟩ (writeText number b) := by
  rw [writeText, List.append_assoc]
  exact .text (isKey_varint hpos hlt (by decide)) (isVarint_varint h)

def stringFields (number : Nat) (s : String) : List Field :=
  if s = "" then [] else [⟨number, .text (Bytes.ofText s)⟩]

theorem isMessage_writeString {s : String} (hpos : 1 ≤ number) (hlt : number < 2 ^ 29)
    (h : (writeString number s).length < 2 ^ 64) :
    IsMessage (stringFields number s) (writeString number s) := by
  unfold writeString at h ⊢
  unfold stringFields
  split
  · exact .nil
  · next hs =>
    rw [if_neg hs, writeText, List.length_append] at h
    exact (isField_writeText hpos hlt (by omega)).isMessage

end Writing

end Telemetry.Wire
