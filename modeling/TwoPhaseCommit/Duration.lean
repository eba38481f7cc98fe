/- Spans of time in whole seconds and nanoseconds, up to the largest span that 64 bits of seconds
   can hold. Scaling works limb by limb and stops at the largest span; `nanoseconds` is the span as
   one number. -/
namespace TwoPhaseCommit

/-- The number of nanoseconds in a second. -/
abbrev nanosPerSecond : Nat := 1000000000

structure Duration where
  seconds : UInt64
  nanos : UInt32
  nanos_lt : nanos.toNat < nanosPerSecond := by decide
  deriving DecidableEq, Repr

namespace Duration

/-- The span as a number of nanoseconds. -/
def nanoseconds (d : Duration) : Nat := d.seconds.toNat * nanosPerSecond + d.nanos.toNat

/-- The largest span. -/
def greatest : Duration := ⟨18446744073709551615, 999999999, by decide⟩

def ofSeconds (s : UInt64) : Duration := ⟨s, 0, by decide⟩

/-- A span from a number of seconds and a number of nanoseconds below a second, or the largest span
    when there are too many seconds. -/
def clamp (seconds nanos : Nat) (h : nanos < nanosPerSecond) : Duration :=
  if hs : seconds < UInt64.size then
    ⟨UInt64.ofNatLT seconds hs, UInt32.ofNatLT nanos (Nat.lt_trans h (by decide)), by simpa using h⟩
  else greatest

def ofMilliseconds (ms : UInt64) : Duration :=
  clamp (ms.toNat / 1000) (ms.toNat % 1000 * 1000000) (by simp only [nanosPerSecond]; omega)

/-- The span `k` times over. Whole seconds are carried out of the product of the nanoseconds. -/
def scale (d : Duration) (k : Nat) : Duration :=
  clamp (d.seconds.toNat * k + d.nanos.toNat * k / nanosPerSecond)
    (d.nanos.toNat * k % nanosPerSecond) (Nat.mod_lt _ (by decide))

/-- Spans compare by their seconds first. -/
def le (a b : Duration) : Bool :=
  a.seconds < b.seconds || a.seconds == b.seconds && a.nanos ≤ b.nanos

def min (a b : Duration) : Duration := if a.le b then a else b

/-- How long a pause of a span lasts. The longest one ends after thirty years of 365 days. -/
def asPause (d : Duration) : Duration := d.min (ofSeconds 946080000)

end Duration
end TwoPhaseCommit
