import Telemetry.Text.Bytes

/-!
Waiting times. A duration is a number of seconds below `2 ^ 64` and of nanoseconds below `10 ^ 9`;
sums and multiples that leave this range do not exist. A retry policy says how many further attempts
are made and how the waits between them grow.
-/
namespace Telemetry

structure Duration where
  seconds : Nat
  nanos : Nat
  seconds_lt : seconds < 2 ^ 64 := by decide
  nanos_lt : nanos < 10 ^ 9 := by decide
deriving DecidableEq, Repr

namespace Duration

def zero : Duration := ⟨0, 0, by decide, by decide⟩

/-- Seconds and any number of nanoseconds, the full seconds among the latter carried over. -/
def ofParts? (seconds nanos : Nat) : Option Duration :=
  if h : seconds + nanos / 10 ^ 9 < 2 ^ 64 then
    some ⟨seconds + nanos / 10 ^ 9, nanos % 10 ^ 9, h, Nat.mod_lt _ (by decide)⟩
  else none

def toNanos (d : Duration) : Nat := d.seconds * 10 ^ 9 + d.nanos

/-- The least number of milliseconds that is not shorter. -/
def toMillis (d : Duration) : Nat := d.seconds * 1000 + (d.nanos + 999999) / 1000000

def add? (a b : Duration) : Option Duration := ofParts? (a.seconds + b.seconds) (a.nanos + b.nanos)

def mul? (d : Duration) (n : Nat) : Option Duration := ofParts? (d.seconds * n) (d.nanos * n)

theorem toNanos_of_ofParts? {s n : Nat} {d : Duration} (h : ofParts? s n = some d) :
    d.toNanos = s * 10 ^ 9 + n := by
  unfold ofParts? at h
  split at h
  · cases h
    simp only [toNanos]
    omega
  · simp at h

theorem ofParts?_eq_none_iff {s n : Nat} :
    ofParts? s n = none ↔ 2 ^ 64 * 10 ^ 9 ≤ s * 10 ^ 9 + n := by
  unfold ofParts?
  split
  · next h => simp; omega
  · next h => simp; omega

theorem toNanos_lt (d : Duration) : d.toNanos < 2 ^ 64 * 10 ^ 9 := by
  have := d.seconds_lt
  have := d.nanos_lt
  simp only [toNanos]
  omega

theorem toNanos_inj {a b : Duration} (h : a.toNanos = b.toNanos) : a = b := by
  have := a.nanos_lt
  have := b.nanos_lt
  cases a
  cases b
  simp only [toNanos] at h
  simp only [mk.injEq]
  omega

end Duration

/-- How often and after which waits a failed attempt is repeated. -/
structure RetryPolicy where
  maxRetries : Nat
  initial : Duration
  step : Duration
deriving DecidableEq, Repr

namespace RetryPolicy

/-- Three further attempts, after one, three and five seconds. -/
def standard : RetryPolicy :=
  ⟨3, ⟨1, 0, by decide, by decide⟩, ⟨2, 0, by decide, by decide⟩⟩

/-- The wait after the failed attempt number `attempt`, counted from zero. -/
def delay? (p : RetryPolicy) (attempt : Nat) : Option Duration :=
  (p.step.mul? attempt).bind p.initial.add?

/-- The wait grows by one step per attempt, in exact arithmetic. -/
theorem toNanos_of_delay? {p : RetryPolicy} {attempt : Nat} {d : Duration}
    (h : p.delay? attempt = some d) :
    d.toNanos = p.initial.toNanos + attempt * p.step.toNanos := by
  obtain ⟨m, hm, h⟩ := Option.bind_eq_some_iff.1 h
  have hm := Duration.toNanos_of_ofParts? hm
  have hd := Duration.toNanos_of_ofParts? h
  have : attempt * p.step.toNanos = m.toNanos := by
    rw [hm, Duration.toNanos, Nat.mul_add, ← Nat.mul_assoc, Nat.mul_comm attempt,
      Nat.mul_comm attempt]
  rw [hd, this]
  simp only [Duration.toNanos]
  omega

end RetryPolicy
end Telemetry
