import Telemetry.Proofs.Net.Numerals

/-!
The texts of addresses. Every address is read back from its text, in whichever of the forms it is written:
four octets, eight groups, groups around two colons that stand for a run of zeros, or octets behind the
groups of a mapped address.
-/
namespace Telemetry.Net.Address

section Quads
variable {n : Nat} {cs rest : List Char}

theorem quadText_eq (n : Nat) : quadText n =
    Text.natDigits (n / 256 / 256 / 256 % 256) ++ '.' :: (Text.natDigits (n / 256 / 256 % 256) ++
      '.' :: (Text.natDigits (n / 256 % 256) ++ '.' :: Text.natDigits (n % 256))) := by
  simp [quadText, toDigits, List.intercalate, List.intersperse]

theorem forall_mem_quadText {p : Char → Prop} (hpoint : p '.')
    (hdigit : ∀ d < 10, p (Nat.digitChar d)) (n : Nat) : ∀ c ∈ quadText n, p c := by
  have hoctet : ∀ k, ∀ c ∈ Text.natDigits k, p c := by
    intro k
    rw [natDigits_eq_toDigits]
    exact forall_mem_numeral (by decide) hdigit k
  simp only [quadText_eq, List.mem_append, List.mem_cons]
  rintro c (hc | rfl | hc | rfl | hc | rfl | hc)
  all_goals first | exact hpoint | exact hoctet _ c hc

theorem quad?_eq_none (h : Stops Text.digitValue? cs) : quad? cs = none := by
  simp [quad?, octet?_eq_none h]

theorem quad?_eq_none_of_not_mem (h : '.' ∉ cs) : quad? cs = none := by
  cases hfirst : octet? cs with
  | none => simp [quad?, hfirst]
  | some first =>
    obtain ⟨n, rest⟩ := first
    have hrest : '.' ∉ rest := fun hmem => h ((suffix_of_octet? hfirst).subset hmem)
    have hafter : after? '.' rest = none := by
      cases rest with
      | nil => rfl
      | cons c rest => exact if_neg fun hc : '.' = c => hrest (hc ▸ List.mem_cons_self)
    simp [quad?, hfirst, hafter]

theorem quad?_quadText (hn : n < 2 ^ 32) (hrest : Stops Text.digitValue? rest) :
    quad? (quadText n ++ rest) = some (n, rest) := by
  have hpoint : ∀ cs, Stops Text.digitValue? ('.' :: cs) := fun cs c hc => by
    cases hc
    decide
  have hoctet : ∀ k cs, octet? (Text.natDigits (k % 256) ++ '.' :: cs) = some (k % 256, '.' :: cs) :=
    fun k cs => octet?_natDigits (Nat.mod_lt k (by decide)) (hpoint cs)
  have hlast : octet? (Text.natDigits (n % 256) ++ rest) = some (n % 256, rest) :=
    octet?_natDigits (Nat.mod_lt n (by decide)) hrest
  have hvalue : ofDigits 256 (toDigits 256 4 n) = n := ofDigits_toDigits hn
  simp only [toDigits, List.nil_append, List.cons_append] at hvalue
  simp [quadText_eq, quad?, after?, hoctet, hlast, hvalue]

end Quads

section Groups
variable {gs : List Nat} {g k q : Nat} {isFirst : Bool} {cs numeral rest : List Char}

def groupsTail (gs : List Nat) : List Char := gs.flatMap fun g => ':' :: Nat.toDigits 16 g

theorem groupsText_cons (g : Nat) (gs : List Nat) :
    groupsText (g :: gs) = Nat.toDigits 16 g ++ groupsTail gs := by
  induction gs generalizing g with
  | nil => simp [groupsText, groupsTail]
  | cons g' gs ih =>
    have hcons : groupsText (g :: g' :: gs) = Nat.toDigits 16 g ++ [':'] ++ groupsText (g' :: gs) :=
      List.intercalate_cons_cons
    rw [hcons, ih]
    simp [groupsTail]

theorem forall_mem_groupsText {p : Char → Prop} (hcolon : p ':')
    (hdigit : ∀ d < 16, p (Nat.digitChar d)) (gs : List Nat) : ∀ c ∈ groupsText gs, p c := by
  have hgroup := fun g => forall_mem_numeral (p := p) (by decide) hdigit g
  cases gs with
  | nil => simp [groupsText]
  | cons g gs =>
    rw [groupsText_cons]
    simp only [List.mem_append, groupsTail, List.mem_flatMap, List.mem_cons]
    rintro c (hc | ⟨g', -, rfl | hc⟩)
    · exact hgroup g c hc
    · exact hcolon
    · exact hgroup g' c hc

/-- Where a row of groups ends: with the text or at two colons. -/
def EndsGroups (rest : List Char) : Prop := rest = [] ∨ ∃ more, rest = ':' :: ':' :: more

theorem stops_colon {value : Char → Option Nat} (hcolon : value ':' = none) (cs : List Char) :
    Stops value (':' :: cs) := by
  rintro c ⟨⟩
  exact hcolon

theorem EndsGroups.stops {value : Char → Option Nat} (hcolon : value ':' = none) (h : EndsGroups rest) :
    Stops value rest := by
  rcases h with rfl | ⟨more, rfl⟩
  · exact nofun
  · exact stops_colon hcolon _

theorem groups_group (hstart : (if isFirst then some cs else after? ':' cs) = some numeral)
    (hquad : quad? numeral = none) (hgroup : group? numeral = some (g, rest)) :
    groups (k + 1) isFirst cs = (g :: (groups k false rest).1, (groups k false rest).2) := by
  rw [groups, hstart]
  simp [hquad, hgroup]

theorem groups_quad (hstart : (if isFirst then some cs else after? ':' cs) = some numeral)
    (hquad : quad? numeral = some (q, rest)) :
    groups (k + 2) isFirst cs = ([q / 65536, q % 65536], true, rest) := by
  rw [groups, hstart]
  simp [hquad]

theorem groups_end (hrest : EndsGroups rest) (k : Nat) (isFirst : Bool) :
    groups k isFirst rest = ([], false, rest) := by
  have hnone : ∀ cs, Stops hexDigit? cs → Stops Text.digitValue? cs →
      group? cs = none ∧ quad? cs = none := fun cs hhex hdigit =>
    ⟨group?_eq_none hhex, quad?_eq_none hdigit⟩
  cases k with
  | zero => rfl
  | succ k =>
    cases isFirst with
    | true =>
      obtain ⟨hgroup, hquad⟩ := hnone rest (hrest.stops (by decide)) (hrest.stops (by decide))
      simp [groups, hgroup, hquad]
    | false =>
      rcases hrest with rfl | ⟨more, rfl⟩
      · rfl
      · obtain ⟨hgroup, hquad⟩ :=
          hnone (':' :: more) (stops_colon (by decide) more) (stops_colon (by decide) more)
        simp [groups, after?, hgroup, hquad]

theorem quad?_groupsText (hpoint : '.' ∉ rest) (gs : List Nat) : quad? (groupsText gs ++ rest) = none := by
  refine quad?_eq_none_of_not_mem fun hmem => ?_
  rcases List.mem_append.1 hmem with hmem | hmem
  · exact forall_mem_groupsText (p := (· ≠ '.')) (by decide) (by decide) gs '.' hmem rfl
  · exact hpoint hmem

theorem group?_groupsText (hg : g < 65536) (hrest : EndsGroups rest) (gs : List Nat) :
    group? (groupsText (g :: gs) ++ rest) = some (g, groupsTail gs ++ rest) := by
  have hstops : Stops hexDigit? (groupsTail gs ++ rest) := by
    cases gs with
    | nil => exact hrest.stops (by decide)
    | cons g gs => exact stops_colon (by decide) _
  rw [groupsText_cons, List.append_assoc]
  exact group?_toDigits hg hstops

theorem groups_cons (hk : gs.length ≤ k) (hg : g < 65536) (hgs : ∀ g ∈ gs, g < 65536)
    (hrest : EndsGroups rest) (hpoint : '.' ∉ rest)
    (hstart : (if isFirst then some cs else after? ':' cs) = some (groupsText (g :: gs) ++ rest)) :
    groups (k + 1) isFirst cs = (g :: gs, false, rest) := by
  have hstep := groups_group (k := k) hstart (quad?_groupsText hpoint _) (group?_groupsText hg hrest gs)
  -- The first group of a row and those behind a colon only differ in how they start, so `hstart` moves along.
  induction gs generalizing g k isFirst cs with
  | nil =>
    have hend : groups k false (groupsTail [] ++ rest) = ([], false, rest) := groups_end hrest k false
    rw [hstep, hend]
  | cons g' gs ih =>
    obtain ⟨hg', hgs⟩ := List.forall_mem_cons.1 hgs
    obtain ⟨k, rfl⟩ : ∃ j, k = j + 1 := ⟨k - 1, by simp at hk; omega⟩
    have htail : (if false then some (groupsTail (g' :: gs) ++ rest)
        else after? ':' (groupsTail (g' :: gs) ++ rest)) = some (groupsText (g' :: gs) ++ rest) := by
      simp [groupsTail, groupsText_cons, after?]
    have hnext := groups_group (k := k) htail (quad?_groupsText hpoint _) (group?_groupsText hg' hrest gs)
    rw [hstep, ih (by simpa using hk) hg' hgs htail hnext]

theorem groups_groupsText (hk : gs.length ≤ k) (hgs : ∀ g ∈ gs, g < 65536) (hrest : EndsGroups rest)
    (hpoint : '.' ∉ rest) : groups k true (groupsText gs ++ rest) = (gs, false, rest) := by
  cases gs with
  | nil => exact groups_end hrest k true
  | cons g gs =>
    obtain ⟨hg, hgs⟩ := List.forall_mem_cons.1 hgs
    obtain ⟨k, rfl⟩ : ∃ j, k = j + 1 := ⟨k - 1, by simp at hk; omega⟩
    exact groups_cons (by simpa using hk) hg hgs hrest hpoint rfl

end Groups

section ZeroRuns
variable {gs before : List Nat} {run current longest : Nat × Nat}

/-- There are zeros at as many places as the run is long, from its start on. -/
def IsZeroRun (gs : List Nat) (run : Nat × Nat) : Prop :=
  ∃ as bs, gs = as ++ List.replicate run.2 0 ++ bs ∧ as.length = run.1

def EndsInRun (gs : List Nat) (run : Nat × Nat) : Prop :=
  run.2 ≠ 0 → ∃ as, gs = as ++ List.replicate run.2 0 ∧ as.length = run.1

theorem IsZeroRun.append (h : IsZeroRun before run) (gs : List Nat) : IsZeroRun (before ++ gs) run := by
  obtain ⟨as, bs, rfl, has⟩ := h
  exact ⟨as, bs ++ gs, by simp, has⟩

theorem EndsInRun.isZeroRun (h : EndsInRun before run) (hrun : run.2 ≠ 0) : IsZeroRun before run := by
  obtain ⟨as, has, hstart⟩ := h hrun
  exact ⟨as, [], by simpa using has, hstart⟩

theorem EndsInRun.zero (h : EndsInRun before current) : EndsInRun (before ++ [0])
    (if current.2 = 0 then (before.length, 1) else (current.1, current.2 + 1)) := by
  intro _
  split
  · exact ⟨before, rfl, rfl⟩
  · next hcurrent =>
    obtain ⟨as, has, hstart⟩ := h hcurrent
    exact ⟨as, by rw [has, List.replicate_succ', List.append_assoc], hstart⟩

/-- What is looked for is a run of zeros, whatever has been passed. -/
theorem isZeroRun_longestZeros (hcurrent : EndsInRun before current) (hlongest : IsZeroRun before longest) :
    IsZeroRun (before ++ gs) (longestZeros before.length current longest gs) := by
  induction gs generalizing before current longest with
  | nil => simpa [longestZeros] using hlongest
  | cons g gs ih =>
    have hlength : before.length + 1 = (before ++ [g]).length := by simp
    rw [List.append_cons, longestZeros, hlength]
    split
    · next hg =>
      subst hg
      have hnext := hcurrent.zero
      dsimp only
      generalize (if current.2 = 0 then (before.length, 1) else (current.1, current.2 + 1)) = next at hnext ⊢
      refine ih hnext ?_
      split
      · exact hnext.isZeroRun (by omega)
      · exact hlongest.append [0]
    · exact ih (fun h => absurd rfl h) (hlongest.append [g])

theorem isZeroRun_of_start (gs : List Nat) : IsZeroRun gs (longestZeros 0 (0, 0) (0, 0) gs) := by
  have hnone : EndsInRun [] (0, 0) := fun h => absurd rfl h
  exact isZeroRun_longestZeros hnone ⟨[], [], rfl, rfl⟩

end ZeroRuns

section Octuples
variable {n q : Nat} {gs as bs : List Nat} {run : Nat × Nat}

theorem octuple?_groupsText (hlength : gs.length = 8) (hgs : ∀ g ∈ gs, g < 65536) :
    octuple? (groupsText gs) = some (ofDigits 65536 gs, []) := by
  have hgroups : groups 8 true (groupsText gs) = (gs, false, []) := by
    simpa using groups_groupsText hlength.le hgs (.inl rfl) (List.not_mem_nil : '.' ∉ [])
  simp [octuple?, hgroups, hlength]

theorem octuple?_compressed (hlength : as.length + bs.length < 8) (has : ∀ g ∈ as, g < 65536)
    (hbs : ∀ g ∈ bs, g < 65536) : octuple? (groupsText as ++ ':' :: ':' :: groupsText bs) =
      some (ofDigits 65536 (as ++ List.replicate (8 - as.length - bs.length) 0 ++ bs), []) := by
  have hpoint : '.' ∉ ':' :: ':' :: groupsText bs := by
    simp only [List.mem_cons, not_or]
    exact ⟨by decide, by decide, fun hmem =>
      forall_mem_groupsText (p := (· ≠ '.')) (by decide) (by decide) bs '.' hmem rfl⟩
  have hhead : groups 8 true (groupsText as ++ ':' :: ':' :: groupsText bs) =
      (as, false, ':' :: ':' :: groupsText bs) :=
    groups_groupsText (by omega) has (.inr ⟨_, rfl⟩) hpoint
  have htail : groups (7 - as.length) true (groupsText bs) = (bs, false, []) := by
    simpa using groups_groupsText (by omega) hbs (.inl rfl) (List.not_mem_nil : '.' ∉ [])
  have hshort : as.length ≠ 8 := by omega
  simp [octuple?, hhead, hshort, after?, htail]

theorem toList_mappedStart : "::ffff:".toList = [':', ':', 'f', 'f', 'f', 'f', ':'] := rfl

theorem octuple?_mapped (hq : q < 2 ^ 32) :
    octuple? ("::ffff:".toList ++ quadText q) = some (0xffff * 2 ^ 32 + q, []) := by
  have htext : "::ffff:".toList ++ quadText q =
      ':' :: ':' :: (Nat.toDigits 16 0xffff ++ ':' :: quadText q) := rfl
  have hhead := groups_end (.inr ⟨Nat.toDigits 16 0xffff ++ ':' :: quadText q, rfl⟩) 8 true
  have hquad : quad? (Nat.toDigits 16 0xffff ++ ':' :: quadText q) = none :=
    quad?_eq_none (fun c hc => by cases hc; decide)
  have hgroup := group?_toDigits (by decide : 0xffff < 65536)
    (stops_colon (by decide) (quadText q) : Stops hexDigit? _)
  have hlast : quad? (quadText q) = some (q, []) := by
    simpa using quad?_quadText hq (fun _ => nofun : Stops Text.digitValue? [])
  have htail : groups 7 true (Nat.toDigits 16 0xffff ++ ':' :: quadText q) =
      ([0xffff, q / 65536, q % 65536], true, []) := by
    rw [groups_group rfl hquad hgroup, groups_quad (k := 4) rfl hlast]
  have hvalue : ofDigits 65536 [0, 0, 0, 0, 0, 0xffff, q / 65536, q % 65536] = 0xffff * 2 ^ 32 + q := by
    simp only [ofDigits, List.foldl_cons, List.foldl_nil]
    omega
  rw [htext, ← hvalue]
  generalize Nat.toDigits 16 0xffff ++ ':' :: quadText q = rest at hhead htail
  simp [octuple?, hhead, after?, htail, List.replicate]

/-- Two colons for a run of more than one zero do not change what is read. -/
theorem octuple?_shortened (hrun : IsZeroRun gs run) (hlength : gs.length = 8) (hgs : ∀ g ∈ gs, g < 65536) :
    octuple? (if 1 < run.2 then
        groupsText (gs.take run.1) ++ ':' :: ':' :: groupsText (gs.drop (run.1 + run.2))
      else groupsText gs) = some (ofDigits 65536 gs, []) := by
  split
  · next hlong =>
    obtain ⟨as, bs, rfl, has⟩ := hrun
    obtain ⟨hhead, hbs⟩ := List.forall_mem_append.1 hgs
    obtain ⟨has', -⟩ := List.forall_mem_append.1 hhead
    have htake : (as ++ List.replicate run.2 0 ++ bs).take run.1 = as := by
      rw [List.append_assoc, List.take_left' has]
    have hdrop : (as ++ List.replicate run.2 0 ++ bs).drop (run.1 + run.2) = bs :=
      List.drop_left' (by simp [has])
    simp only [List.length_append, List.length_replicate] at hlength
    have hmissing : 8 - as.length - bs.length = run.2 := by omega
    rw [htake, hdrop, octuple?_compressed (by omega) has' hbs, hmissing]
  · exact octuple?_groupsText hlength hgs

theorem octuple?_octupleText (hn : n < 2 ^ 128) : octuple? (octupleText n) = some (n, []) := by
  unfold octupleText
  split
  · next hmapped =>
    rw [octuple?_mapped (Nat.mod_lt n (by decide)), ← hmapped, Nat.div_add_mod']
  · have hgs : ∀ g ∈ toDigits 65536 8 n, g < 65536 := fun g => lt_of_mem_toDigits (by decide)
    have hvalue : ofDigits 65536 (toDigits 65536 8 n) = n := ofDigits_toDigits hn
    have hread := octuple?_shortened (isZeroRun_of_start _) (length_toDigits 65536 8 n) hgs
    rwa [hvalue] at hread

/-- Eight groups are written with digits and colons, and with points if they embed four octets. -/
theorem forall_mem_octupleText {p : Char → Prop} (hpoint : n / 2 ^ 32 = 0xffff → p '.') (hcolon : p ':')
    (hdigit : ∀ d < 16, p (Nat.digitChar d)) : ∀ c ∈ octupleText n, p c := by
  have hgroups := forall_mem_groupsText hcolon hdigit
  unfold octupleText
  split
  · next hmapped =>
    have hquad := forall_mem_quadText (hpoint hmapped) (fun d hd => hdigit d (by omega)) (n % 2 ^ 32)
    have hf : p 'f' := hdigit 15 (by decide)
    have hstart : ∀ c ∈ "::ffff:".toList, p c := by
      simp [toList_mappedStart, hcolon, hf]
    exact List.forall_mem_append.2 ⟨hstart, hquad⟩
  · dsimp only
    split
    · exact List.forall_mem_append.2 ⟨hgroups _, by simpa [hcolon] using hgroups _⟩
    · exact hgroups _

theorem quad?_octupleText (n : Nat) : quad? (octupleText n) = none := by
  by_cases hmapped : n / 2 ^ 32 = 0xffff
  · rw [octupleText, if_pos hmapped]
    exact quad?_eq_none (stops_colon (by decide) _)
  · refine quad?_eq_none_of_not_mem fun hmem => ?_
    exact forall_mem_octupleText (p := (· ≠ '.')) (absurd · hmapped) (by decide) (by decide) '.' hmem rfl

end Octuples

section Texts
variable {a : Address}

theorem forall_mem_text {p : Char → Prop} (hpoint : p '.') (hcolon : p ':')
    (hdigit : ∀ d < 16, p (Nat.digitChar d)) (a : Address) : ∀ c ∈ a.text, p c := by
  unfold text
  split
  · exact forall_mem_quadText hpoint (fun d hd => hdigit d (by omega)) _
  · exact forall_mem_octupleText (fun _ => hpoint) hcolon hdigit

theorem ofNat_value (a : Address) : ofNat a.family a.value = a := by
  obtain ⟨family, value, hvalue⟩ := a
  simp [ofNat, Nat.mod_eq_of_lt hvalue]

theorem ofText?_text (a : Address) : ofText? a.text = some a := by
  have hsame := ofNat_value a
  obtain ⟨family, value, hvalue⟩ := a
  cases family with
  | four =>
    have hquad : quad? (quadText value) = some (value, []) := by
      simpa using quad?_quadText hvalue (fun _ => nofun : Stops Text.digitValue? [])
    simpa [text, ofText?, hquad] using hsame
  | six => simpa [text, ofText?, quad?_octupleText, octuple?_octupleText hvalue] using hsame

theorem ofText?_mapped {q : Nat} (hq : q < 2 ^ 32) :
    ofText? ("::ffff:".toList ++ quadText q) = some (ofNat .six (0xffff * 2 ^ 32 + q)) := by
  have hquad : quad? ("::ffff:".toList ++ quadText q) = none :=
    quad?_eq_none (stops_colon (by decide) (":ffff:".toList ++ quadText q))
  rw [ofText?, hquad, octuple?_mapped hq]

end Texts
end Telemetry.Net.Address
