import Telemetry.Proofs.Retry.Calls

/-!
The delays of a retry policy, and the loop that asks for them. A delay is the exact sum, and there is none
only where the sum is no duration. The loop goes from turn to turn with a counter of 32 bits; the counter says
how many calls have been made and stays within the retries, so that it does not overflow and no delay is asked
for that the retries do not need. A run breaks down at such a delay or not at all.
-/
namespace Telemetry

namespace Duration

theorem toNanos_eq_iff {d : Duration} {n : Nat} :
    d.toNanos = n ↔ d.seconds = n / 10 ^ 9 ∧ d.nanos = n % 10 ^ 9 := by
  have hnanos := d.nanos_lt
  simp only [toNanos]
  omega

theorem add?_eq_none_iff {a b : Duration} :
    a.add? b = none ↔ 2 ^ 64 * 10 ^ 9 ≤ a.toNanos + b.toNanos := by
  have hsum : a.toNanos + b.toNanos = (a.seconds + b.seconds) * 10 ^ 9 + (a.nanos + b.nanos) := by
    simp only [toNanos]
    omega
  rw [add?, ofParts?_eq_none_iff, hsum]

theorem toNanos_mul (d : Duration) (n : Nat) :
    n * d.toNanos = d.seconds * n * 10 ^ 9 + d.nanos * n := by
  rw [toNanos, Nat.mul_add, ← Nat.mul_assoc, Nat.mul_comm n, Nat.mul_comm n]

theorem mul?_eq_none_iff {d : Duration} {n : Nat} : d.mul? n = none ↔ 2 ^ 64 * 10 ^ 9 ≤ n * d.toNanos := by
  rw [mul?, ofParts?_eq_none_iff, toNanos_mul]

theorem toNanos_of_mul? {d m : Duration} {n : Nat} (h : d.mul? n = some m) : m.toNanos = n * d.toNanos :=
  (toNanos_of_ofParts? h).trans (toNanos_mul d n).symm

end Duration

namespace RetryPolicy

section Delays
variable {p : RetryPolicy} {i j attempt : Nat} {d d' : Duration}

/-- The wait after an attempt in exact arithmetic. -/
def exactDelay (p : RetryPolicy) (attempt : Nat) : Nat := p.initial.toNanos + attempt * p.step.toNanos

theorem exactDelay_mono (h : i ≤ j) : p.exactDelay i ≤ p.exactDelay j :=
  Nat.add_le_add_left (Nat.mul_le_mul_right _ h) _

theorem delay?_eq_none_iff : p.delay? attempt = none ↔ 2 ^ 64 * 10 ^ 9 ≤ p.exactDelay attempt := by
  rw [delay?, exactDelay]
  cases hm : p.step.mul? attempt with
  | none =>
    have hlong := Duration.mul?_eq_none_iff.1 hm
    simpa using Nat.le_add_left_of_le hlong
  | some m => rw [Option.bind_some, Duration.add?_eq_none_iff, Duration.toNanos_of_mul? hm]

theorem delay?_eq_some_iff : p.delay? attempt = some d ↔ d.toNanos = p.exactDelay attempt := by
  refine ⟨toNanos_of_delay?, fun h => ?_⟩
  cases hd : p.delay? attempt with
  | none =>
    have hlong := delay?_eq_none_iff.1 hd
    have hlt := d.toNanos_lt
    omega
  | some d' => rw [Duration.toNanos_inj (h.trans (toNanos_of_delay? hd).symm)]

theorem isSome_delay?_of_le (h : i ≤ j) (hj : (p.delay? j).isSome) : (p.delay? i).isSome := by
  rw [Option.isSome_iff_ne_none, Ne, delay?_eq_none_iff] at hj ⊢
  exact fun hlong => hj (Nat.le_trans hlong (exactDelay_mono h))

end Delays

/-- A repeated call before one of its turns: how many calls have been made, the counter, and the time. -/
structure Turn where
  made : Nat
  attempt : UInt32
  now : Nat

inductive TurnEnd (ε α : Type) where
  | ended (finish : Nat) (result : Except ε α)
  | again (next : Turn)
  /-- The delay that is asked for is no duration. -/
  | noDelay
  /-- The counter is at its end. -/
  | noAttempt

namespace Turn
variable {ε α : Type}

def start : Turn := ⟨0, 0, 0⟩

section
variable (p : RetryPolicy) (cancel : Option Nat) (cost : Nat → Nat) (isTransient : ε → Bool)
  (call : Nat → Except ε α)

/-- The attempt whose delay is asked for in a turn, if the call is to be made again. -/
def asked? (t : Turn) : Option UInt32 :=
  match call t.made with
  | .ok _ => none
  | .error e => if !isTransient e || p.maxRetries ≤ t.attempt.toNat then none else some t.attempt

/-- One turn: the call, and the wait after it. The next attempt is told to the log before the wait. -/
def take (t : Turn) : TurnEnd ε α :=
  match t.asked? p isTransient call with
  | none => .ended (t.now + cost t.made) (call t.made)
  | some attempt =>
    match p.delay? attempt.toNat with
    | none => .noDelay
    | some d =>
      if attempt.toNat + 1 < 2 ^ 32 then
        let (isCut, stop) := endOfWait cancel (t.now + cost t.made) d.toMillis
        if isCut then .ended stop (call t.made) else .again ⟨t.made + 1, attempt + 1, stop⟩
      else .noAttempt

inductive Reached : Turn → Prop
  | start : Reached start
  | again {t next : Turn} (ht : Reached t) (hnext : t.take p cancel cost isTransient call = .again next) :
      Reached next

/-- What is left of a run from a turn on. -/
def rest? (t : Turn) : Option (RetryRun ε α) :=
  p.runFrom? cancel cost isTransient call (p.maxRetries - t.made) t.made t.now

/-- What a turn can come to while the retries are not more than a 32-bit number can count. -/
inductive Takes (t : Turn) : TurnEnd ε α → Prop
  | last (hasked : t.asked? p isTransient call = none) : Takes t (.ended (t.now + cost t.made) (call t.made))
  | cut {d : Duration} (hasked : t.asked? p isTransient call = some t.attempt)
      (hdelay : p.delay? t.attempt.toNat = some d)
      (hcut : (endOfWait cancel (t.now + cost t.made) d.toMillis).1 = true) :
      Takes t (.ended (endOfWait cancel (t.now + cost t.made) d.toMillis).2 (call t.made))
  | wait {d : Duration} (hasked : t.asked? p isTransient call = some t.attempt)
      (hdelay : p.delay? t.attempt.toNat = some d)
      (hcut : (endOfWait cancel (t.now + cost t.made) d.toMillis).1 = false) :
      Takes t (.again ⟨t.made + 1, t.attempt + 1, t.now + cost t.made + d.toMillis⟩)
  | noDelay (hasked : t.asked? p isTransient call = some t.attempt)
      (hdelay : p.delay? t.attempt.toNat = none) : Takes t .noDelay

end

/-- The counter is the number of calls made, and the retries are not fewer. -/
structure Counts (p : RetryPolicy) (t : Turn) : Prop where
  attempt : t.attempt.toNat = t.made
  made : t.made ≤ p.maxRetries

section
variable {p : RetryPolicy} {cancel : Option Nat} {cost : Nat → Nat} {isTransient : ε → Bool}
  {call : Nat → Except ε α} {t next : Turn} {attempt : UInt32}

theorem asked?_eq_some_iff : t.asked? p isTransient call = some attempt ↔
    attempt = t.attempt ∧ mayPass isTransient (call t.made) ∧ t.attempt.toNat < p.maxRetries := by
  unfold asked?
  cases hcall : call t.made with
  | ok a => simp [mayPass]
  | error e =>
    cases he : isTransient e with
    | false => simp [mayPass, he]
    | true => simp [mayPass, he, eq_comm, and_comm]

theorem takes_of_take {result : TurnEnd ε α} (hmax : p.maxRetries < 2 ^ 32)
    (h : t.take p cancel cost isTransient call = result) :
    Takes p cancel cost isTransient call t result := by
  subst h
  cases hasked : t.asked? p isTransient call with
  | none =>
    simp only [take, hasked]
    exact .last hasked
  | some attempt =>
    obtain ⟨rfl, -, hleft⟩ := asked?_eq_some_iff.1 hasked
    cases hdelay : p.delay? t.attempt.toNat with
    | none =>
      simp only [take, hasked, hdelay]
      exact .noDelay hasked hdelay
    | some d =>
      have hcount : t.attempt.toNat + 1 < 2 ^ 32 := by omega
      simp only [take, hasked, hdelay, if_pos hcount]
      cases hcut : (endOfWait cancel (t.now + cost t.made) d.toMillis).1 with
      | true => exact .cut hasked hdelay hcut
      | false =>
        rw [endOfWait_of_not_cut hcut]
        exact .wait hasked hdelay hcut

theorem take_ne_noAttempt (hmax : p.maxRetries < 2 ^ 32) (t : Turn) :
    t.take p cancel cost isTransient call ≠ .noAttempt := by
  intro htake
  cases takes_of_take hmax htake

theorem counts_start : start.Counts p := ⟨rfl, Nat.zero_le _⟩

theorem Counts.again (h : t.Counts p) (hmax : p.maxRetries < 2 ^ 32)
    (hnext : t.take p cancel cost isTransient call = .again next) : next.Counts p := by
  cases takes_of_take hmax hnext with
  | wait hasked =>
    obtain ⟨-, -, hleft⟩ := asked?_eq_some_iff.1 hasked
    have hsame := h.attempt
    refine ⟨?_, by simp only; omega⟩
    rw [UInt32.toNat_add, UInt32.toNat_one, Nat.mod_eq_of_lt (by omega), hsame]

theorem Reached.counts (h : Reached p cancel cost isTransient call t) (hmax : p.maxRetries < 2 ^ 32) :
    t.Counts p := by
  induction h with
  | start => exact counts_start
  | again _ hnext ih => exact ih.again hmax hnext

theorem runFrom?_of_noDelay {attempt : Nat} (h : mayPass isTransient (call attempt))
    (hdelay : p.delay? attempt = none) (left now : Nat) :
    p.runFrom? cancel cost isTransient call (left + 1) attempt now = none := by
  rw [runFrom?]
  cases hcall : call attempt with
  | ok a => simp [hcall, mayPass] at h
  | error e =>
    have he : isTransient e = true := by simpa [hcall, mayPass] using h
    simp [he, hdelay]

theorem Counts.rest?_eq (h : t.Counts p) (hmax : p.maxRetries < 2 ^ 32) :
    t.rest? p cancel cost isTransient call = match t.take p cancel cost isTransient call with
      | .ended finish result => some ⟨[t.now], finish, result⟩
      | .again next => (next.rest? p cancel cost isTransient call).map fun r =>
          { r with starts := t.now :: r.starts }
      | .noDelay => none
      | .noAttempt => none := by
  have hsame := h.attempt
  have hretries : ∀ {attempt}, t.asked? p isTransient call = some attempt →
      p.maxRetries - t.made = p.maxRetries - (t.made + 1) + 1 := fun hasked => by
    have hleft := (asked?_eq_some_iff.1 hasked).2.2
    omega
  have hpass : ∀ {attempt}, t.asked? p isTransient call = some attempt →
      mayPass isTransient (call t.made) := fun hasked => (asked?_eq_some_iff.1 hasked).2.1
  generalize htake : t.take p cancel cost isTransient call = result
  cases takes_of_take hmax htake with
  | last hasked =>
    by_cases hpass : mayPass isTransient (call t.made)
    · have hlast : ¬ t.attempt.toNat < p.maxRetries := fun hleft => by
        simp [asked?_eq_some_iff.2 ⟨rfl, hpass, hleft⟩] at hasked
      rw [rest?, show p.maxRetries - t.made = 0 by omega]
      rfl
    · exact runFrom?_of_not_mayPass (by simpa using hpass) _ _
  | cut hasked hdelay hcut =>
    rw [rest?, hretries hasked, runFrom?_of_mayPass (hpass hasked) (hsame ▸ hdelay), if_pos hcut]
  | wait hasked hdelay hcut =>
    rw [rest?, hretries hasked, runFrom?_of_mayPass (hpass hasked) (hsame ▸ hdelay), if_neg (by simp [hcut])]
    rfl
  | noDelay hasked hdelay =>
    rw [rest?, hretries hasked]
    exact runFrom?_of_noDelay (hpass hasked) (hsame ▸ hdelay) _ _

/-- Where what is left of a run has no value, one of its turns has no delay. By induction on the retries that
are left. -/
theorem Reached.exists_noDelay {t : Turn} (hmax : p.maxRetries < 2 ^ 32)
    (h : Reached p cancel cost isTransient call t) (hrest : t.rest? p cancel cost isTransient call = none) :
    ∃ last, Reached p cancel cost isTransient call last ∧
      last.take p cancel cost isTransient call = .noDelay := by
  rw [(h.counts hmax).rest?_eq hmax] at hrest
  cases htake : t.take p cancel cost isTransient call with
  | ended finish result => simp [htake] at hrest
  | noAttempt => exact absurd htake (take_ne_noAttempt hmax t)
  | noDelay => exact ⟨t, h, htake⟩
  | again next =>
    have hnext : Reached p cancel cost isTransient call next := .again h htake
    have hmade : next.made = t.made + 1 := by cases takes_of_take hmax htake; rfl
    have hleft : next.made ≤ p.maxRetries := (hnext.counts hmax).made
    exact hnext.exists_noDelay hmax (by simpa [htake] using hrest)
termination_by p.maxRetries - t.made

theorem Reached.runTimed?_eq_none (hmax : p.maxRetries < 2 ^ 32)
    (h : Reached p cancel cost isTransient call t) (hrest : t.rest? p cancel cost isTransient call = none) :
    p.runTimed? cancel cost isTransient call = none := by
  induction h with
  | start => exact hrest
  | @again t next ht hnext ih =>
    refine ih ?_
    rw [(ht.counts hmax).rest?_eq hmax, hnext]
    exact Option.map_eq_none_iff.2 hrest

/-- A run breaks down if and only if it comes to a turn whose delay is no duration. -/
theorem runTimed?_eq_none_iff (hmax : p.maxRetries < 2 ^ 32) :
    p.runTimed? cancel cost isTransient call = none ↔
      ∃ last, Reached p cancel cost isTransient call last ∧
        last.take p cancel cost isTransient call = .noDelay := by
  constructor
  · exact fun h => Reached.start.exists_noDelay hmax h
  · rintro ⟨last, hlast, htake⟩
    exact hlast.runTimed?_eq_none hmax (by rw [(hlast.counts hmax).rest?_eq hmax, htake])

theorem isSome_runTimed? (hmax : p.maxRetries < 2 ^ 32)
    (h : p.maxRetries = 0 ∨ (p.delay? (p.maxRetries - 1)).isSome) :
    (p.runTimed? cancel cost isTransient call).isSome := by
  rw [Option.isSome_iff_ne_none, Ne, runTimed?_eq_none_iff hmax]
  rintro ⟨last, -, htake⟩
  cases takes_of_take hmax htake with
  | noDelay hasked hdelay =>
    obtain ⟨-, -, hleft⟩ := asked?_eq_some_iff.1 hasked
    rcases h with h | h
    · omega
    · have hsome := isSome_delay?_of_le (i := last.attempt.toNat) (by omega) h
      rw [hdelay] at hsome
      cases hsome

end
end Turn

section
variable {ε α : Type}

/-- A delay is the exact sum, with all full seconds carried over, and there is one unless the sum is longer than
the longest duration; later delays are not shorter. In a run of a policy whose retries are a 32-bit number,
the counter tells the calls made and never comes to its end, and no delay is asked for after as many attempts as
there are retries; the run breaks down only at a delay that does not exist, so it does not if there are no
retries or there is the last of their delays. -/
theorem delays_exact (p : RetryPolicy) :
    (∀ attempt,
      (∀ d, p.delay? attempt = some d ↔
        d.seconds = p.exactDelay attempt / 10 ^ 9 ∧ d.nanos = p.exactDelay attempt % 10 ^ 9) ∧
      (p.delay? attempt = none ↔ (2 ^ 64 - 1) * 10 ^ 9 + 999999999 < p.exactDelay attempt)) ∧
    (∀ i j d d', i ≤ j → p.delay? i = some d → p.delay? j = some d' → d.toNanos ≤ d'.toNanos) ∧
    (p.maxRetries < 2 ^ 32 → ∀ (cancel : Option Nat) (cost : Nat → Nat) (isTransient : ε → Bool)
        (call : Nat → Except ε α),
      (∀ t, Turn.Reached p cancel cost isTransient call t → t.Counts p ∧
        t.take p cancel cost isTransient call ≠ .noAttempt ∧
        ∀ attempt, t.asked? p isTransient call = some attempt → attempt.toNat < p.maxRetries) ∧
      (p.runTimed? cancel cost isTransient call = none ↔
        ∃ t, Turn.Reached p cancel cost isTransient call t ∧
          t.take p cancel cost isTransient call = .noDelay) ∧
      (p.maxRetries = 0 ∨ (p.delay? (p.maxRetries - 1)).isSome →
        (p.runTimed? cancel cost isTransient call).isSome)) := by
  refine ⟨fun attempt => ⟨fun d => ?_, ?_⟩, fun i j d d' hij hd hd' => ?_, fun hmax cancel cost isTransient call =>
    ⟨fun t ht => ⟨ht.counts hmax, Turn.take_ne_noAttempt hmax t, fun attempt hasked => ?_⟩,
      Turn.runTimed?_eq_none_iff hmax, Turn.isSome_runTimed? hmax⟩⟩
  · rw [delay?_eq_some_iff]
    exact Duration.toNanos_eq_iff
  · rw [delay?_eq_none_iff]
    omega
  · rw [toNanos_of_delay? hd, toNanos_of_delay? hd']
    exact exactDelay_mono hij
  · obtain ⟨rfl, -, hleft⟩ := Turn.asked?_eq_some_iff.1 hasked
    exact hleft

def longest : RetryPolicy :=
  ⟨2, ⟨2 ^ 64 - 4, 999999998, by decide, by decide⟩, ⟨3, 1, by decide, by decide⟩⟩

/-- A third delay would be too long, but no run of two retries asks for it. -/
theorem delays_exact_longest :
    longest.maxRetries < 2 ^ 32 ∧
      longest.delay? 1 = some ⟨2 ^ 64 - 1, 999999999, by decide, by decide⟩ ∧
      longest.delay? 2 = none ∧
      (longest.runTimed? none (fun _ => 7) id (fun _ => (.error true : Except Bool Nat))).isSome := by
  have hmax : longest.maxRetries < 2 ^ 32 := by decide
  obtain ⟨hdelay, -, hruns⟩ := delays_exact (ε := Bool) (α := Nat) longest
  have hlast : longest.delay? 1 = some ⟨2 ^ 64 - 1, 999999999, by decide, by decide⟩ :=
    ((hdelay 1).1 _).2 (by decide)
  refine ⟨hmax, hlast, (hdelay 2).2.2 (by decide), ?_⟩
  exact (hruns hmax none (fun _ => 7) id fun _ => .error true).2.2
    (.inr (Option.isSome_of_eq_some hlast))

end
end RetryPolicy
end Telemetry
