import Telemetry.Retry.Run

/-!
The calls that a retry policy makes. Without a cancellation they go on to the first that is not to be
repeated or until there are no retries left, with the policy's waits between them; a cancellation leaves
those that have started by then, and no wait goes on after it.
-/
namespace Telemetry

theorem Duration.toMillis_pos {d : Duration} (h : 0 < d.toNanos) : 0 < d.toMillis := by
  have hparts : 0 < d.seconds ∨ 0 < d.nanos := by
    simp only [toNanos] at h
    omega
  rcases hparts with hseconds | hnanos
  · exact Nat.add_pos_left (Nat.mul_pos hseconds (by decide)) _
  · refine Nat.add_pos_right _ (Nat.div_pos ?_ (by decide))
    exact Nat.add_le_add hnanos (Nat.le_refl 999999)

namespace RetryPolicy
variable {ε α : Type}

/-- The call has failed, and the failure may pass. -/
def mayPass (isTransient : ε → Bool) : Except ε α → Bool
  | .ok _ => false
  | .error e => isTransient e

/-- When call number `i` starts if it follows all those before it, after the delays between them. -/
def callStart (cost : Nat → Nat) (delay : Nat → Duration) : Nat → Nat
  | 0 => 0
  | i + 1 => callStart cost delay i + cost i + (delay i).toMillis

def callEnd (cost : Nat → Nat) (delay : Nat → Duration) (i : Nat) : Nat :=
  callStart cost delay i + cost i

/-- How many calls from number `attempt` on are repeated one after another, at most `left` of them. -/
def repeats (isRepeated : Nat → Bool) : Nat → Nat → Nat
  | 0, _ => 0
  | left + 1, attempt =>
    if isRepeated attempt then repeats isRepeated left (attempt + 1) + 1 else 0

section Repeats
variable {isRepeated isRepeated' : Nat → Bool}

theorem repeats_le (left attempt : Nat) : repeats isRepeated left attempt ≤ left := by
  induction left generalizing attempt with
  | zero => exact Nat.le_refl 0
  | succ left ih =>
    rw [repeats]
    split
    · exact Nat.succ_le_succ (ih _)
    · exact Nat.zero_le _

theorem isRepeated_of_lt_repeats {left attempt i : Nat} (h : i < repeats isRepeated left attempt) :
    isRepeated (attempt + i) := by
  induction left generalizing attempt i with
  | zero => exact absurd h (Nat.not_lt_zero _)
  | succ left ih =>
    rw [repeats] at h
    split at h
    · next hattempt =>
      cases i with
      | zero => exact hattempt
      | succ i =>
        have hi := ih (Nat.lt_of_succ_lt_succ h)
        rwa [Nat.add_right_comm] at hi
    · exact absurd h (Nat.not_lt_zero _)

theorem not_isRepeated_repeats {left attempt : Nat} (h : repeats isRepeated left attempt < left) :
    isRepeated (attempt + repeats isRepeated left attempt) = false := by
  induction left generalizing attempt with
  | zero => exact absurd h (Nat.not_lt_zero _)
  | succ left ih =>
    rw [repeats] at h ⊢
    split
    · next hattempt =>
      rw [if_pos hattempt] at h
      have hlast := ih (Nat.lt_of_succ_lt_succ h)
      rwa [Nat.add_right_comm] at hlast
    · next hattempt => simpa using hattempt

theorem repeats_of_first {left k : Nat} (hbefore : ∀ i < k, isRepeated i) (hk : isRepeated k = false) :
    repeats isRepeated left 0 = min k left := by
  have hle : repeats isRepeated left 0 ≤ left := repeats_le left 0
  have hupper : repeats isRepeated left 0 ≤ k := by
    refine Nat.le_of_not_lt fun hlt => ?_
    have hrepeated := isRepeated_of_lt_repeats hlt
    rw [Nat.zero_add, hk] at hrepeated
    cases hrepeated
  have hlower : repeats isRepeated left 0 < left → k ≤ repeats isRepeated left 0 := by
    intro hlt
    refine Nat.le_of_not_lt fun hlt' => ?_
    have hlast := not_isRepeated_repeats hlt
    rw [Nat.zero_add, hbefore _ hlt'] at hlast
    cases hlast
  omega

theorem repeats_of_forall {left : Nat} (h : ∀ i, isRepeated i) : repeats isRepeated left 0 = left := by
  refine Nat.le_antisymm (repeats_le _ _) (Nat.le_of_not_lt fun hlt => ?_)
  have hlast := not_isRepeated_repeats hlt
  rw [h] at hlast
  cases hlast

end Repeats

section Runs
variable {p : RetryPolicy} {cancel : Option Nat} {cost : Nat → Nat} {delay : Nat → Duration}
  {isTransient : ε → Bool} {call : Nat → Except ε α}

/-- Call number `i` is followed by another one: its failure may pass, and the wait after it is not cut. -/
def isRepeated (cancel : Option Nat) (cost : Nat → Nat) (delay : Nat → Duration) (isTransient : ε → Bool)
    (call : Nat → Except ε α) (i : Nat) : Bool :=
  mayPass isTransient (call i) && !(endOfWait cancel (callEnd cost delay i) (delay i).toMillis).1

def finishAfter (cancel : Option Nat) (cost : Nat → Nat) (delay : Nat → Duration) (isTransient : ε → Bool)
    (call : Nat → Except ε α) (left i : Nat) : Nat :=
  if 0 < left ∧ mayPass isTransient (call i) then
    (endOfWait cancel (callEnd cost delay i) (delay i).toMillis).2
  else callEnd cost delay i

theorem endOfWait_of_not_cut {now d : Nat} (h : (endOfWait cancel now d).1 = false) :
    endOfWait cancel now d = (false, now + d) := by
  cases cancel with
  | none => rfl
  | some c =>
    simp only [endOfWait] at h ⊢
    split at h
    · cases h
    · next hcut => exact if_neg hcut

theorem endOfWait_of_cut {t now d : Nat} (h : (endOfWait (some t) now d).1) :
    (endOfWait (some t) now d).2 = max t now := by
  simp only [endOfWait] at h ⊢
  split at h
  · next hcut => rw [if_pos hcut]
  · cases h

theorem runFrom?_of_not_mayPass {attempt : Nat} (h : mayPass isTransient (call attempt) = false)
    (left now : Nat) : p.runFrom? cancel cost isTransient call left attempt now =
      some ⟨[now], now + cost attempt, call attempt⟩ := by
  cases left with
  | zero => rfl
  | succ left =>
    rw [runFrom?]
    cases hcall : call attempt with
    | ok a => rfl
    | error e =>
      rw [hcall, mayPass] at h
      simp [h]

theorem runFrom?_of_mayPass {attempt : Nat} {d : Duration} (h : mayPass isTransient (call attempt))
    (hd : p.delay? attempt = some d) (left now : Nat) :
    p.runFrom? cancel cost isTransient call (left + 1) attempt now =
      if (endOfWait cancel (now + cost attempt) d.toMillis).1 then
        some ⟨[now], (endOfWait cancel (now + cost attempt) d.toMillis).2, call attempt⟩
      else (p.runFrom? cancel cost isTransient call left (attempt + 1)
        (now + cost attempt + d.toMillis)).map fun r => { r with starts := now :: r.starts } := by
  rw [runFrom?]
  cases hcall : call attempt with
  | ok a =>
    rw [hcall] at h
    cases h
  | error e =>
    rw [hcall] at h
    have he : isTransient e = true := h
    cases hcut : (endOfWait cancel (now + cost attempt) d.toMillis).1 with
    | true =>
      simp only [he, hd, if_true, Option.bind_some]
      split
      · next hwait => rw [hwait]
      · next hwait =>
        rw [hwait] at hcut
        cases hcut
    | false =>
      simp only [he, hd, if_true, Option.bind_some, endOfWait_of_not_cut hcut]
      rfl

/-- The calls from number `attempt` on are made at their times, as long as they are repeated. -/
theorem runFrom?_eq {left attempt : Nat}
    (hdelay : ∀ i, i < attempt + left → p.delay? i = some (delay i)) :
    let m := repeats (isRepeated cancel cost delay isTransient call) left attempt
    p.runFrom? cancel cost isTransient call left attempt (callStart cost delay attempt) =
      some ⟨(List.range' attempt (m + 1)).map (callStart cost delay),
        finishAfter cancel cost delay isTransient call (left - m) (attempt + m), call (attempt + m)⟩ := by
  induction left generalizing attempt with
  | zero => simp [repeats, runFrom?, finishAfter, callEnd]
  | succ left ih =>
    cases hpass : mayPass isTransient (call attempt) with
    | false =>
      rw [runFrom?_of_not_mayPass hpass]
      simp [repeats, isRepeated, finishAfter, hpass, callEnd]
    | true =>
      rw [runFrom?_of_mayPass hpass (hdelay attempt (by omega))]
      cases hcut : (endOfWait cancel (callEnd cost delay attempt) (delay attempt).toMillis).1 with
      | true =>
        rw [callEnd] at hcut
        simp [repeats, isRepeated, finishAfter, hpass, callEnd, hcut]
      | false =>
        have hnext := @ih (attempt + 1) fun i hi => hdelay i (by omega)
        rw [callStart] at hnext
        have hrepeated : isRepeated cancel cost delay isTransient call attempt := by
          simp [isRepeated, hpass, hcut]
        rw [callEnd] at hcut
        simp only [hcut, repeats, hrepeated, if_true]
        rw [if_neg (by simp), hnext]
        simp [List.range'_succ, Nat.add_assoc, Nat.add_comm 1]

theorem runTimed?_eq (hdelay : ∀ i < p.maxRetries, p.delay? i = some (delay i)) :
    let m := repeats (isRepeated cancel cost delay isTransient call) p.maxRetries 0
    p.runTimed? cancel cost isTransient call =
      some ⟨(List.range (m + 1)).map (callStart cost delay),
        finishAfter cancel cost delay isTransient call (p.maxRetries - m) m, call m⟩ := by
  have hrun : p.runTimed? cancel cost isTransient call = _ :=
    runFrom?_eq fun i hi => hdelay i (by omega)
  simpa only [Nat.zero_add, ← List.range_eq_range'] using hrun

end Runs

section Cancellation
variable {p : RetryPolicy} {cost : Nat → Nat} {delay : Nat → Duration} {isTransient : ε → Bool}
  {call : Nat → Except ε α} {cancel : Option Nat} {t left : Nat}

theorem callStart_mono {i j : Nat} (h : i ≤ j) : callStart cost delay i ≤ callStart cost delay j := by
  induction h with
  | refl => exact Nat.le_refl _
  | step _ ih =>
    rw [callStart]
    omega

theorem isRepeated_none (i : Nat) :
    isRepeated none cost delay isTransient call i = mayPass isTransient (call i) :=
  Bool.and_true _

/-- If there is a wait that does not end at the very time of the cancellation, the call after it is made if
and only if it starts before that time. -/
theorem isRepeated_some {i : Nat} (hpos : 0 < (delay i).toNanos) (hne : callStart cost delay (i + 1) ≠ t) :
    isRepeated (some t) cost delay isTransient call i =
      (mayPass isTransient (call i) && decide (callStart cost delay (i + 1) < t)) := by
  have hmillis := Duration.toMillis_pos hpos
  have hend : callStart cost delay (i + 1) = callEnd cost delay i + (delay i).toMillis := rfl
  rw [isRepeated, endOfWait]
  split
  · next hcut =>
    have hlate : ¬ callStart cost delay (i + 1) < t := by omega
    simp [hlate]
  · next hcut =>
    have hearly : callStart cost delay (i + 1) < t := by omega
    simp [hearly]

theorem repeats_some
    (hpos : ∀ i < repeats (isRepeated none cost delay isTransient call) left 0, 0 < (delay i).toNanos)
    (hne : ∀ i < repeats (isRepeated none cost delay isTransient call) left 0,
      callStart cost delay (i + 1) ≠ t) :
    let n := repeats (isRepeated none cost delay isTransient call) left 0
    let m := repeats (isRepeated (some t) cost delay isTransient call) left 0
    m ≤ n ∧ ∀ i < n, callStart cost delay (i + 1) < t ↔ i < m := by
  intro n m
  have hn : n ≤ left := repeats_le left 0
  have hm : m ≤ left := repeats_le left 0
  have hmn : m ≤ n := by
    refine Nat.le_of_not_lt fun hlt => ?_
    have hlast := not_isRepeated_repeats (Nat.lt_of_lt_of_le hlt hm)
    have hrepeated := isRepeated_of_lt_repeats hlt
    rw [isRepeated_none] at hlast
    rw [isRepeated, hlast] at hrepeated
    cases hrepeated
  refine ⟨hmn, fun i hi => ⟨fun hbefore => ?_, fun him => ?_⟩⟩
  · refine Nat.lt_of_not_le fun hle => ?_
    have hmn' : m < n := Nat.lt_of_le_of_lt hle hi
    have hlast := not_isRepeated_repeats (Nat.lt_of_lt_of_le hmn' hn)
    have hpass := isRepeated_of_lt_repeats hmn'
    rw [isRepeated_none] at hpass
    have hstart : callStart cost delay (m + 1) < t :=
      Nat.lt_of_le_of_lt (callStart_mono (Nat.succ_le_succ hle)) hbefore
    rw [Nat.zero_add] at hpass hlast
    rw [isRepeated_some (hpos m hmn') (hne m hmn'), hpass, decide_eq_true hstart] at hlast
    cases hlast
  · have hrepeated := isRepeated_of_lt_repeats him
    rw [Nat.zero_add, isRepeated_some (hpos i hi) (hne i hi), Bool.and_eq_true] at hrepeated
    exact of_decide_eq_true hrepeated.2

theorem filter_range {n m : Nat} {q : Nat → Bool} (hle : m ≤ n) (h : ∀ i < n, q i ↔ i < m) :
    (List.range n).filter q = List.range m := by
  obtain ⟨k, rfl⟩ := Nat.exists_eq_add_of_le hle
  have hfirst : (List.range m).filter q = List.range m :=
    List.filter_eq_self.2 fun i hi => (h i (by have := List.mem_range.1 hi; omega)).2 (List.mem_range.1 hi)
  have hrest : ((List.range k).map (m + ·)).filter q = [] := by
    refine List.filter_eq_nil_iff.2 fun i hi => ?_
    obtain ⟨j, hj, rfl⟩ := List.mem_map.1 hi
    have hj := List.mem_range.1 hj
    rw [h (m + j) (by omega)]
    omega
  rw [List.range_add, List.filter_append, hfirst, hrest, List.append_nil]

theorem starts_before {start : Nat → Nat} {n m : Nat} (hle : m ≤ n)
    (h : ∀ i < n, start (i + 1) < t ↔ i < m) : (List.range (m + 1)).map start =
      ((List.range (n + 1)).map start).take 1 ++
        (((List.range (n + 1)).map start).drop 1).filter (· < t) := by
  have hfilter : (List.range n).filter ((decide <| · < t) ∘ start ∘ Nat.succ) = List.range m :=
    filter_range hle fun i hi => by simpa using h i hi
  simp only [List.range_succ_eq_map, List.map_cons, List.map_map, List.take_succ_cons, List.take_zero,
    List.drop_succ_cons, List.drop_zero, List.singleton_append, List.filter_map, hfilter]

/-- The last call of a run without a cancellation has no wait after it, so a cancellation changes nothing
there. -/
theorem finishAfter_last :
    finishAfter cancel cost delay isTransient call
        (left - repeats (isRepeated none cost delay isTransient call) left 0)
        (repeats (isRepeated none cost delay isTransient call) left 0) =
      callEnd cost delay (repeats (isRepeated none cost delay isTransient call) left 0) := by
  refine if_neg fun h => ?_
  have hlast := not_isRepeated_repeats (Nat.lt_of_sub_pos h.1)
  rw [isRepeated_none, Nat.zero_add] at hlast
  exact absurd h.2 (by simp [hlast])

/-- Where a cancellation leaves out the next call, the wait for it is cut. -/
theorem finishAfter_cut
    (hlt : repeats (isRepeated (some t) cost delay isTransient call) left 0 <
      repeats (isRepeated none cost delay isTransient call) left 0) :
    finishAfter (some t) cost delay isTransient call
        (left - repeats (isRepeated (some t) cost delay isTransient call) left 0)
        (repeats (isRepeated (some t) cost delay isTransient call) left 0) =
      max t (callEnd cost delay (repeats (isRepeated (some t) cost delay isTransient call) left 0)) := by
  have hleft := Nat.lt_of_lt_of_le hlt (repeats_le left 0)
  have hpass := isRepeated_of_lt_repeats hlt
  have hlast := not_isRepeated_repeats hleft
  rw [Nat.zero_add] at hpass hlast
  rw [isRepeated_none] at hpass
  rw [isRepeated, hpass, Bool.true_and, Bool.not_eq_false'] at hlast
  rw [finishAfter, if_pos ⟨Nat.sub_pos_of_lt hleft, hpass⟩]
  exact endOfWait_of_cut hlast

end Cancellation

section Runs
variable (cost : Nat → Nat) (delay : Nat → Duration) (call : Nat → Except ε α)

/-- The run makes `n` calls with the delays in their order between them and no other wait, and gives the
outcome of the last call. -/
structure Makes (n : Nat) (r : RetryRun ε α) : Prop where
  starts : r.starts = (List.range n).map (callStart cost delay)
  finish : r.finish = callEnd cost delay (n - 1)
  result : r.result = call (n - 1)

/-- What a cancellation at the time `t` makes of a run: only the first call and those that start before `t`
are made. The last of them is completed; if another one would have followed, the wait for it is over at `t`,
or at once if it begins later than that. -/
structure CutsAt (t : Nat) (r r' : RetryRun ε α) : Prop where
  starts : r'.starts = r.starts.take 1 ++ (r.starts.drop 1).filter (· < t)
  finish : r'.finish = if r'.starts.length = r.starts.length then
      callEnd cost delay (r'.starts.length - 1)
    else max t (callEnd cost delay (r'.starts.length - 1))
  result : r'.result = call (r'.starts.length - 1)

variable {cost delay call} {p : RetryPolicy} {isTransient : ε → Bool}

theorem exists_makes (hdelay : ∀ i < p.maxRetries, p.delay? i = some (delay i)) :
    ∃ r, p.runTimed? none cost isTransient call = some r ∧ Makes cost delay call
      (repeats (isRepeated none cost delay isTransient call) p.maxRetries 0 + 1) r :=
  ⟨_, runTimed?_eq hdelay, rfl, finishAfter_last, rfl⟩

theorem exists_cutsAt {r : RetryRun ε α} {t : Nat}
    (hdelay : ∀ i < p.maxRetries, p.delay? i = some (delay i))
    (hmakes : Makes cost delay call
      (repeats (isRepeated none cost delay isTransient call) p.maxRetries 0 + 1) r)
    (hpos : ∀ i < repeats (isRepeated none cost delay isTransient call) p.maxRetries 0,
      0 < (delay i).toNanos)
    (hne : ∀ i < repeats (isRepeated none cost delay isTransient call) p.maxRetries 0,
      callStart cost delay (i + 1) ≠ t) :
    ∃ r', p.runTimed? (some t) cost isTransient call = some r' ∧ CutsAt cost delay call t r r' := by
  obtain ⟨hle, hbefore⟩ := repeats_some hpos hne
  refine ⟨_, runTimed?_eq hdelay, ?_, ?_, ?_⟩
  · rw [hmakes.starts]
    exact starts_before hle hbefore
  · simp only [hmakes.starts, List.length_map, List.length_range, Nat.add_sub_cancel]
    split
    · next hmn =>
      rw [Nat.succ_inj.1 hmn]
      exact finishAfter_last
    · next hmn => exact finishAfter_cut (by omega)
  · simp

variable (cost delay isTransient call)

/-- A policy whose delays are durations repeats a call up to the first outcome that is not a failure that may
pass, or until its retries are used up; and a cancellation keeps the calls that have started by then. -/
theorem runTimed?_repeats (hdelay : ∀ i < p.maxRetries, p.delay? i = some (delay i)) :
    ∃ r n, p.runTimed? none cost isTransient call = some r ∧ Makes cost delay call n r ∧
      (∀ k, (∀ i < k, mayPass isTransient (call i)) → mayPass isTransient (call k) = false →
        n = min (k + 1) (p.maxRetries + 1)) ∧
      ((∀ i, mayPass isTransient (call i)) → n = p.maxRetries + 1) ∧
      ∀ t, (∀ i, i + 1 < n → 0 < (delay i).toNanos ∧ callStart cost delay (i + 1) ≠ t) →
        ∃ r', p.runTimed? (some t) cost isTransient call = some r' ∧ CutsAt cost delay call t r r' := by
  obtain ⟨r, hr, hmakes⟩ : ∃ r, p.runTimed? none cost isTransient call = some r ∧ _ := exists_makes hdelay
  refine ⟨r, _, hr, hmakes, fun k hbefore hk => ?_, fun hall => ?_, fun t hwaits => ?_⟩
  · rw [repeats_of_first (fun i hi => (isRepeated_none i).trans (hbefore i hi))
      ((isRepeated_none k).trans hk), Nat.add_min_add_right]
  · rw [repeats_of_forall fun i => (isRepeated_none i).trans (hall i)]
  · exact exists_cutsAt hdelay hmakes (fun i hi => (hwaits i (Nat.succ_lt_succ hi)).1)
      fun i hi => (hwaits i (Nat.succ_lt_succ hi)).2

/-- Two failures and then a success: the run makes three calls, and a cancellation in the wait for the third
ends it with the second failure. -/
theorem runTimed?_repeats_secondWait :
    let call : Nat → Except Bool Nat := fun i => if i < 2 then .error true else .ok i
    (∃ r, standard.runTimed? none (40 + ·) id call = some r ∧
      r.starts = [0, 1040, 4081] ∧ r.finish = 4123 ∧ r.result = .ok 2) ∧
    ∃ r', standard.runTimed? (some 2000) (40 + ·) id call = some r' ∧
      r'.starts = [0, 1040] ∧ r'.finish = 2000 ∧ r'.result = .error true := by
  intro call
  have hdelay : ∀ i < standard.maxRetries,
      standard.delay? i = some ((standard.delay? i).getD .zero) := by decide
  obtain ⟨r, n, hr, hmakes, hfirst, -, hcut⟩ := runTimed?_repeats (40 + ·) _ call id hdelay
  obtain rfl : n = 3 := hfirst 2 (by decide) rfl
  have hstarts : r.starts = [0, 1040, 4081] := hmakes.starts.trans (by decide)
  obtain ⟨r', hr', hcuts⟩ := hcut 2000 fun i hi => by
    obtain rfl | rfl : i = 0 ∨ i = 1 := by omega
    all_goals decide
  have hstarts' : r'.starts = [0, 1040] := hcuts.starts.trans (by rw [hstarts]; decide)
  have hfinish' : r'.finish = 2000 := hcuts.finish.trans (by rw [hstarts', hstarts]; decide)
  have hresult' : r'.result = .error true := hcuts.result.trans (by rw [hstarts']; rfl)
  exact ⟨⟨r, hr, hstarts, hmakes.finish.trans (by decide), hmakes.result⟩,
    r', hr', hstarts', hfinish', hresult'⟩

end Runs
end RetryPolicy
end Telemetry
