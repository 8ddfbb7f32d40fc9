import Telemetry.Net.Subnet
import Telemetry.Proofs.Net.AddressTexts
import Telemetry.Proofs.Store.DumpText
import Telemetry.Proofs.Text.Integers
import Telemetry.Proofs.Text.Split

/-!
What a subnet answers. Its members are the addresses of one family that share the first bits of the address
it was read from; the bits behind them do not matter, and the text of a subnet is read as the subnet.
-/
namespace Telemetry

namespace Text

theorem trim_eq_nil_iff {cs : List Char} : trim cs = [] ↔ ∀ c ∈ cs, isBlank c := by
  refine ⟨fun h c hc => ?_, fun h => trim_eq_nil_of_all (List.all_eq_true.2 h)⟩
  have hbehind : ∀ d ∈ (cs.dropWhile isBlank).reverse, isBlank d :=
    List.dropWhile_eq_nil_iff.1 (List.reverse_eq_nil_iff.1 h)
  rw [← List.takeWhile_append_dropWhile (p := isBlank) (l := cs)] at hc
  rcases List.mem_append.1 hc with hc | hc
  · exact List.mem_takeWhile_imp hc
  · exact hbehind c (List.mem_reverse.2 hc)

end Text

namespace Net

namespace Address
variable {a b : Address} {p : Nat}

/-- The bit at a place, counted from the first one. -/
def bit (a : Address) (i : Nat) : Bool := a.value.testBit (a.family.width - 1 - i)

def Agree (p : Nat) (a b : Address) : Prop := a.family = b.family ∧ ∀ i < p, a.bit i = b.bit i

theorem Agree.symm (h : Agree p a b) : Agree p b a := ⟨h.1.symm, fun i hi => (h.2 i hi).symm⟩

theorem Agree.trans {c : Address} (h : Agree p a b) (h' : Agree p b c) : Agree p a c :=
  ⟨h.1.trans h'.1, fun i hi => (h.2 i hi).trans (h'.2 i hi)⟩

theorem testBit_firstBits (a : Address) {p j : Nat} (hp : p ≤ a.family.width) :
    (a.firstBits p).testBit j = if j < p then a.bit (p - 1 - j) else false := by
  rw [firstBits, Nat.testBit_div_two_pow]
  split
  · next hj =>
    rw [bit]
    congr 1
    omega
  · next hj =>
    have hlarge : a.value < 2 ^ (j + (a.family.width - p)) :=
      Nat.lt_of_lt_of_le a.value_lt (Nat.pow_le_pow_right (by decide) (by omega))
    exact Nat.testBit_lt_two_pow hlarge

/-- The first bits are the same number if and only if they are the same one by one. -/
theorem agree_iff (hp : p ≤ a.family.width) :
    Agree p a b ↔ a.family = b.family ∧ a.firstBits p = b.firstBits p := by
  refine and_congr_right fun hfamily => ?_
  have hp' : p ≤ b.family.width := hfamily ▸ hp
  constructor
  · intro h
    refine Nat.eq_of_testBit_eq fun j => ?_
    rw [testBit_firstBits a hp, testBit_firstBits b hp']
    split
    · exact h _ (by omega)
    · rfl
  · intro h i hi
    have hbit : (a.firstBits p).testBit (p - 1 - i) = (b.firstBits p).testBit (p - 1 - i) := by rw [h]
    rw [testBit_firstBits a hp, testBit_firstBits b hp', if_pos (by omega), if_pos (by omega)] at hbit
    have hplace : p - 1 - (p - 1 - i) = i := by omega
    rwa [hplace] at hbit

end Address

namespace Subnet

/-- The text writes an address, a slash and a number of bits that the address has. -/
inductive IsCidr : List Char → Address → Nat → Prop
  | mk {address length : List Char} {a : Address} {p : Nat} (hslash : '/' ∉ address)
      (haddress : Address.ofText? address = some a) (hlength : Text.IsNatLiteral length p)
      (hle : p ≤ a.family.width) : IsCidr (address ++ '/' :: length) a p

theorem IsCidr.length_le {cs : List Char} {a : Address} {p : Nat} (h : IsCidr cs a p) :
    p ≤ a.family.width := by
  obtain ⟨-, -, -, hle⟩ := h
  exact hle

section Truncation
variable {a b : Address} {p : Nat}

theorem value_truncate (a : Address) (p : Nat) :
    (truncate a p).value = a.firstBits p * 2 ^ (a.family.width - p) := by
  have hle : a.firstBits p * 2 ^ (a.family.width - p) ≤ a.value := Nat.div_mul_le_self _ _
  exact Nat.mod_eq_of_lt (Nat.lt_of_le_of_lt hle a.value_lt)

theorem firstBits_truncate (a : Address) (p : Nat) : (truncate a p).firstBits p = a.firstBits p := by
  rw [Address.firstBits, value_truncate, family_truncate]
  exact Nat.mul_div_cancel _ (Nat.two_pow_pos _)

theorem agree_truncate (hp : p ≤ a.family.width) : (truncate a p).Agree p a := by
  have hp' : p ≤ (truncate a p).family.width := hp
  exact (Address.agree_iff hp').2 ⟨family_truncate a p, firstBits_truncate a p⟩

theorem truncate_eq_of_agree (hp : p ≤ a.family.width) (h : a.Agree p b) : truncate a p = truncate b p := by
  obtain ⟨hfamily, hbits⟩ := (Address.agree_iff hp).1 h
  rw [truncate, truncate, hfamily, hbits]

end Truncation

section Reading
variable {s : String} {n : Subnet} {a b : Address}

/-- A subnet is read from the texts of an address and a length, and is that address up to the length. -/
theorem ofText?_eq_some_iff :
    ofText? s = some n ↔ ∃ a, IsCidr (Text.trim s.toList) a n.length ∧ n.base = truncate a n.length := by
  have hread : ∀ cs p, (Text.readNat 255 cs).toOption = some p ↔ Text.IsNatLiteral cs p ∧ p ≤ 255 := by
    intro cs p
    rw [← Text.readNat_eq_ok_iff]
    cases Text.readNat 255 cs <;> simp [Except.toOption]
  constructor
  · intro h
    obtain ⟨⟨address, length⟩, hcut, h⟩ := Option.bind_eq_some_iff.1 h
    obtain ⟨a, haddress, h⟩ := Option.bind_eq_some_iff.1 h
    obtain ⟨p, hlength, h⟩ := Option.bind_eq_some_iff.1 h
    obtain ⟨hslash, hcs⟩ := Text.splitFirst?_eq_some_iff.1 hcut
    split at h
    · next hp =>
      cases h
      exact ⟨a, hcs ▸ .mk hslash haddress ((hread _ _).1 hlength).1 hp, rfl⟩
    · cases h
  · rintro ⟨a, hcidr, hbase⟩
    obtain ⟨base, p, hp⟩ := n
    dsimp only at hcidr hbase
    subst hbase
    generalize hcs : Text.trim s.toList = cs at hcidr
    cases hcidr with
    | mk hslash haddress hlength hle =>
      have hsmall : p ≤ 255 := by
        have hwidth : ∀ family : Family, family.width ≤ 255 := by rintro ⟨⟩ <;> decide
        exact Nat.le_trans hle (hwidth _)
      simp [ofText?, hcs, Text.splitFirst?_append hslash, haddress, (hread _ _).2 ⟨hlength, hsmall⟩, hp]

theorem isBlank_of_mem_text {a : Address} : ∀ c ∈ a.text, Text.isBlank c = false :=
  Address.forall_mem_text (by decide) (by decide) (by decide) a

theorem ofText?_text (h : ofText? s = some n) : ofText? n.text = some n := by
  obtain ⟨a, hcidr, hbase⟩ := ofText?_eq_some_iff.1 h
  have hslash : '/' ∉ n.base.text := fun hmem =>
    Address.forall_mem_text (p := (· ≠ '/')) (by decide) (by decide) (by decide) _ _ hmem rfl
  have hlength : ∀ c ∈ Text.natDigits n.length, Text.isBlank c = false := by
    rw [Address.natDigits_eq_toDigits]
    exact Address.forall_mem_numeral (by decide) (by decide) _
  have hblank : ∀ c ∈ n.base.text ++ '/' :: Text.natDigits n.length, Text.isBlank c = false :=
    List.forall_mem_append.2 ⟨isBlank_of_mem_text, List.forall_mem_cons.2 ⟨by decide, hlength⟩⟩
  refine ofText?_eq_some_iff.2 ⟨n.base, ?_, ?_⟩
  · rw [text, String.toList_ofList, Text.trim_of_no_blank hblank]
    exact .mk hslash (Address.ofText?_text n.base) (Text.isNatLiteral_natDigits n.length) n.length_le
  · have hsame := truncate_eq_of_agree hcidr.length_le (agree_truncate hcidr.length_le).symm
    rwa [← hbase] at hsame

end Reading

section Clients
variable {s : String} {n : Subnet} {a b : Address} {p : Nat} {client : Option String}
  {r r' : Except ClientError Address}

/-- There is no text for the address of the client, or nothing but blanks. -/
def IsMissing (client : Option String) : Prop := ∀ s ∈ client, ∀ c ∈ s.toList, Text.isBlank c

def clientAddress? (client : Option String) : Option Address :=
  client.bind fun s => Address.ofText? (Text.trim s.toList)

theorem contains_iff {ip : Address} : n.contains ip ↔ ip.Agree n.length n.base := by
  rw [contains, Bool.and_eq_true, beq_iff_eq, beq_iff_eq]
  constructor
  · rintro ⟨hfamily, hbits⟩
    exact (Address.agree_iff (hfamily ▸ n.length_le)).2 ⟨hfamily, hbits⟩
  · intro h
    exact (Address.agree_iff (h.1 ▸ n.length_le)).1 h

/-- What there is to say of a client to those who trust the first `p` bits of an address. -/
inductive Decides (p : Nat) (a : Address) : Option String → Except ClientError Address → Prop
  | missing {client : Option String} (hmissing : IsMissing client) : Decides p a client (.error .missing)
  | invalid {s : String} (htext : ¬ IsMissing (some s)) (haddress : clientAddress? (some s) = none) :
      Decides p a (some s) (.error (.invalid (Text.trimmed s)))
  | untrusted {client : Option String} {ip : Address} (haddress : clientAddress? client = some ip)
      (houtside : ¬ ip.Agree p a) : Decides p a client (.error (.untrusted ip))
  | trusted {client : Option String} {ip : Address} (haddress : clientAddress? client = some ip)
      (hinside : ip.Agree p a) : Decides p a client (.ok ip)

theorem isMissing_some_iff : IsMissing (some s) ↔ Text.trim s.toList = [] := by
  simp [IsMissing, Text.trim_eq_nil_iff]

theorem clientAddress?_of_isMissing (h : IsMissing client) : clientAddress? client = none := by
  cases client with
  | none => rfl
  | some s =>
    rw [clientAddress?, Option.bind_some, isMissing_some_iff.1 h]
    rfl

theorem Decides.unique (h : Decides p a client r) (h' : Decides p a client r') : r = r' := by
  cases h with
  | missing hmissing =>
    have hnone := clientAddress?_of_isMissing hmissing
    cases h' with
    | missing => rfl
    | invalid htext => exact absurd hmissing htext
    | untrusted haddress => simp [hnone] at haddress
    | trusted haddress => simp [hnone] at haddress
  | invalid htext hnone =>
    cases h' with
    | missing hmissing => exact absurd hmissing htext
    | invalid => rfl
    | untrusted haddress => simp [hnone] at haddress
    | trusted haddress => simp [hnone] at haddress
  | untrusted haddress houtside =>
    cases h' with
    | missing hmissing => simp [clientAddress?_of_isMissing hmissing] at haddress
    | invalid _ hnone => simp [hnone] at haddress
    | untrusted haddress' => rw [Option.some.inj (haddress.symm.trans haddress')]
    | trusted haddress' hinside =>
      exact absurd (Option.some.inj (haddress.symm.trans haddress') ▸ hinside) houtside
  | trusted haddress hinside =>
    cases h' with
    | missing hmissing => simp [clientAddress?_of_isMissing hmissing] at haddress
    | invalid _ hnone => simp [hnone] at haddress
    | untrusted haddress' houtside =>
      exact absurd (Option.some.inj (haddress.symm.trans haddress') ▸ hinside) houtside
    | trusted haddress' => rw [Option.some.inj (haddress.symm.trans haddress')]

theorem decides_check (n : Subnet) (client : Option String) :
    Decides n.length n.base client (n.check client) := by
  unfold check
  split
  · exact .missing nofun
  · next s =>
    split
    · next hblank => exact .missing (isMissing_some_iff.2 hblank)
    · next hblank =>
      have htext : ¬ IsMissing (some s) := fun h => hblank (isMissing_some_iff.1 h)
      split
      · next haddress => exact .invalid htext haddress
      · next ip haddress =>
        split
        · next hinside => exact .trusted haddress (contains_iff.1 hinside)
        · next houtside => exact .untrusted haddress fun h => houtside (contains_iff.2 h)

theorem Decides.of_agree (hab : b.Agree p a) (h : Decides p b client r) : Decides p a client r := by
  cases h with
  | missing hmissing => exact .missing hmissing
  | invalid htext hnone => exact .invalid htext hnone
  | untrusted haddress houtside => exact .untrusted haddress fun h => houtside (h.trans hab.symm)
  | trusted haddress hinside => exact .trusted haddress (hinside.trans hab)

end Clients

/-- The subnet is the one of the first bits of an address. -/
structure StandsFor (n : Subnet) (a : Address) : Prop where
  check_iff : ∀ client r, n.check client = r ↔ Decides n.length a client r
  check_text : ∀ ip : Address, n.check (some (String.ofList ip.text)) = .ok ip ↔ ip.Agree n.length a
  of_agree : ∀ s b, IsCidr (Text.trim s.toList) b n.length → b.Agree n.length a → ofText? s = some n
  of_text : ofText? n.text = some n
  mapped : a.family = .four → ∀ q : Address, q.family = .four → ∃ m, m.family = .six ∧
    n.check (some (String.ofList ("::ffff:".toList ++ q.text))) = .error (.untrusted m)

section Members
variable {s : String} {n : Subnet} {a q : Address}

theorem clientAddress?_text (ip : Address) : clientAddress? (some (String.ofList ip.text)) = some ip := by
  rw [clientAddress?, Option.bind_some, String.toList_ofList, Text.trim_of_no_blank isBlank_of_mem_text,
    Address.ofText?_text]

theorem exists_clientAddress_mapped (hq : q.family = .four) : ∃ m : Address, m.family = .six ∧
    clientAddress? (some (String.ofList ("::ffff:".toList ++ q.text))) = some m := by
  have htext : q.text = Address.quadText q.value := by rw [Address.text, hq]
  have hvalue : q.value < 2 ^ 32 := by
    have hlt := q.value_lt
    rwa [hq] at hlt
  have hstart : ∀ c ∈ "::ffff:".toList, Text.isBlank c = false := by
    have hcolon : Text.isBlank ':' = false := by decide
    have hletter : Text.isBlank 'f' = false := by decide
    simp [Address.toList_mappedStart, hcolon, hletter]
  have hblank : ∀ c ∈ "::ffff:".toList ++ q.text, Text.isBlank c = false :=
    List.forall_mem_append.2 ⟨hstart, isBlank_of_mem_text⟩
  refine ⟨.ofNat .six (0xffff * 2 ^ 32 + q.value), rfl, ?_⟩
  rw [clientAddress?, Option.bind_some, String.toList_ofList, Text.trim_of_no_blank hblank, htext,
    Address.ofText?_mapped hvalue]

/-- A subnet trusts the addresses that have the family and the first bits of the address it was read from. -/
theorem members_share_bits (h : ofText? s = some n) :
    ∃ a, IsCidr (Text.trim s.toList) a n.length ∧ n.StandsFor a := by
  obtain ⟨a, hcidr, hbase⟩ := ofText?_eq_some_iff.1 h
  have hbits : n.base.Agree n.length a := hbase ▸ agree_truncate hcidr.length_le
  have hcheck : ∀ client r, n.check client = r ↔ Decides n.length a client r := by
    intro client r
    have hdecides := (decides_check n client).of_agree hbits
    exact ⟨fun hr => hr ▸ hdecides, hdecides.unique⟩
  refine ⟨a, hcidr, hcheck, ?_, ?_, ofText?_text h, ?_⟩
  · intro ip
    rw [hcheck]
    constructor
    · intro htrusted
      cases htrusted with
      | trusted _ hinside => exact hinside
    · exact .trusted (clientAddress?_text ip)
  · intro t b hb hab
    exact ofText?_eq_some_iff.2 ⟨b, hb, hbase.trans (truncate_eq_of_agree hcidr.length_le hab.symm)⟩
  · intro ha q hq
    obtain ⟨m, hm, hclient⟩ := exists_clientAddress_mapped hq
    have houtside : ¬ m.Agree n.length a := fun hagree => by
      have hfamily := hagree.1
      rw [hm, ha] at hfamily
      cases hfamily
    exact ⟨m, hm, (hcheck _ _).2 (.untrusted hclient houtside)⟩

/-- A network of eight groups, with bits behind its length. -/
theorem members_share_bits_documentation : ∃ n, ofText? "2001:db8:0:a::7/32" = some n ∧
    ∃ a, IsCidr (Text.trim "2001:db8:0:a::7/32".toList) a n.length ∧ n.StandsFor a :=
  ⟨_, rfl, members_share_bits rfl⟩

end Members
end Subnet
end Net
end Telemetry
