import TwoPhaseCommit.Duration

/- How often a write that lost a race is tried, and how long to wait in between. -/
namespace TwoPhaseCommit

structure RetryPolicy where
  /-- All attempts together, the first one included. -/
  maxAttempts : UInt32
  /-- The pause after the first attempt. It doubles from one attempt to the next. -/
  backoff : Duration
  /-- No pause is longer. -/
  maxBackoff : Duration
  deriving DecidableEq, Repr

namespace RetryPolicy

/-- The pause after failed attempt number `attempt`, counted from 1. It stops doubling after the
    seventeenth. -/
def delay (p : RetryPolicy) (attempt : Nat) : Duration :=
  (p.backoff.scale (Nat.pow 2 (Nat.min (attempt - 1) 16))).min p.maxBackoff

/-- The number of attempts to make. There is always a first one. -/
def attempts (p : RetryPolicy) : Nat := Nat.max p.maxAttempts.toNat 1

theorem attempts_pos (p : RetryPolicy) : 0 < p.attempts := Nat.le_max_right p.maxAttempts.toNat 1

/-- Sixteen attempts, with pauses from two milliseconds up to a tenth of a second. -/
def standard : RetryPolicy := ⟨16, ⟨0, 2000000, by decide⟩, ⟨0, 100000000, by decide⟩⟩

end RetryPolicy
end TwoPhaseCommit
