import Mathlib.Algebra.Group.Nat.Defs
import TwoPhaseCommit.Retry

/- How long a call waits after a failed attempt, in nanoseconds. A span has two limbs and an end, and
   as one number it has neither: comparing spans compares the numbers (`le_iff`), and a multiple of a
   span is the multiple of its number unless there is no span that long (`nanoseconds_scale`). A
   pause is cut off at a span, which is short enough to hide that end, so `delay_exact` is a formula
   of unbounded numbers. -/
namespace TwoPhaseCommit

/-! ## Spans as numbers -/

namespace Duration

theorem nanoseconds_greatest : greatest.nanoseconds = UInt64.size * nanosPerSecond - 1 := by
  decide

theorem nanoseconds_le_greatest (d : Duration) : d.nanoseconds ≤ greatest.nanoseconds := by
  have hs : d.seconds.toNat < UInt64.size := d.seconds.toNat_lt
  have hn : d.nanos.toNat < nanosPerSecond := d.nanos_lt
  rw [nanoseconds_greatest, nanoseconds]
  simp only [nanosPerSecond, UInt64.size] at hs hn ⊢
  omega

theorem le_iff {a b : Duration} : a.le b = true ↔ a.nanoseconds ≤ b.nanoseconds := by
  have ha : a.nanos.toNat < nanosPerSecond := a.nanos_lt
  have hb : b.nanos.toNat < nanosPerSecond := b.nanos_lt
  simp only [le, nanoseconds, Bool.or_eq_true, Bool.and_eq_true, decide_eq_true_eq, beq_iff_eq,
    UInt64.lt_iff_toNat_lt, UInt32.le_iff_toNat_le, ← UInt64.toNat_inj]
  simp only [nanosPerSecond] at ha hb ⊢
  omega

theorem nanoseconds_min (a b : Duration) :
    (a.min b).nanoseconds = Min.min a.nanoseconds b.nanoseconds := by
  rw [min]
  split
  · next h => exact (Nat.min_eq_left (le_iff.1 h)).symm
  · next h =>
    have hlt : b.nanoseconds < a.nanoseconds := Nat.lt_of_not_le fun hle => h (le_iff.2 hle)
    exact (Nat.min_eq_right (Nat.le_of_lt hlt)).symm

theorem nanoseconds_clamp (seconds nanos : Nat) (h : nanos < nanosPerSecond) :
    (clamp seconds nanos h).nanoseconds =
      Min.min (seconds * nanosPerSecond + nanos) greatest.nanoseconds := by
  rw [clamp]
  split
  · next hs =>
    have hspan := nanoseconds_le_greatest
      ⟨UInt64.ofNatLT seconds hs, UInt32.ofNatLT nanos (Nat.lt_trans h (by decide)), by simpa using h⟩
    simp only [nanoseconds, UInt64.toNat_ofNatLT, UInt32.toNat_ofNatLT] at hspan ⊢
    exact (Nat.min_eq_left hspan).symm
  · next hs =>
    have hgreatest := nanoseconds_greatest
    have hle : UInt64.size * nanosPerSecond ≤ seconds * nanosPerSecond :=
      Nat.mul_le_mul_right _ (Nat.le_of_not_lt hs)
    exact (Nat.min_eq_right (by omega)).symm

/-- There are seconds enough for all numbers of milliseconds. -/
theorem nanoseconds_ofMilliseconds (ms : UInt64) :
    (ofMilliseconds ms).nanoseconds = ms.toNat * 1000000 := by
  have hms : ms.toNat < UInt64.size := ms.toNat_lt
  rw [ofMilliseconds, nanoseconds_clamp, nanoseconds_greatest]
  simp only [nanosPerSecond, UInt64.size] at hms ⊢
  omega

/-- The seconds that are carried out of the nanoseconds make up for what is missing there. -/
theorem nanoseconds_scale (d : Duration) (k : Nat) :
    (d.scale k).nanoseconds = Min.min (d.nanoseconds * k) greatest.nanoseconds := by
  rw [scale, nanoseconds_clamp]
  congr 1
  calc (d.seconds.toNat * k + d.nanos.toNat * k / nanosPerSecond) * nanosPerSecond +
        d.nanos.toNat * k % nanosPerSecond
      = d.seconds.toNat * k * nanosPerSecond +
        (d.nanos.toNat * k / nanosPerSecond * nanosPerSecond +
          d.nanos.toNat * k % nanosPerSecond) := by rw [Nat.add_mul, Nat.add_assoc]
    _ = d.seconds.toNat * k * nanosPerSecond + d.nanos.toNat * k := by rw [Nat.div_add_mod']
    _ = d.nanoseconds * k := by rw [nanoseconds, Nat.add_mul, Nat.mul_right_comm]

end Duration

/-! ## Pauses -/

namespace RetryPolicy
variable (p : RetryPolicy)

/-- The longest pause is itself a span, so a product that is cut off at the greatest span is cut off
    once more. -/
theorem nanoseconds_delay (n : Nat) : (p.delay n).nanoseconds =
    min (p.backoff.nanoseconds * 2 ^ min (n - 1) 16) p.maxBackoff.nanoseconds := by
  have hcap := p.maxBackoff.nanoseconds_le_greatest
  have hpow : Nat.pow 2 (Nat.min (n - 1) 16) = 2 ^ min (n - 1) 16 := rfl
  rw [delay, hpow, Duration.nanoseconds_min, Duration.nanoseconds_scale, Nat.min_assoc,
    Nat.min_eq_right hcap]

theorem delay_le_delay {q : RetryPolicy} {m n : Nat} (hn : m ≤ n)
    (hb : p.backoff.nanoseconds ≤ q.backoff.nanoseconds)
    (hm : p.maxBackoff.nanoseconds ≤ q.maxBackoff.nanoseconds) :
    (p.delay m).nanoseconds ≤ (q.delay n).nanoseconds := by
  have hpow : 2 ^ min (m - 1) 16 ≤ 2 ^ min (n - 1) 16 :=
    Nat.pow_le_pow_right (by decide) (by omega)
  have hproduct := Nat.mul_le_mul hb hpow
  rw [nanoseconds_delay, nanoseconds_delay]
  exact Nat.le_min.2
    ⟨Nat.le_trans (Nat.min_le_left ..) hproduct, Nat.le_trans (Nat.min_le_right ..) hm⟩

theorem nanoseconds_delay_succ {n : Nat} (first : 1 ≤ n) (last : n ≤ 16) :
    (p.delay (n + 1)).nanoseconds = min (2 * (p.delay n).nanoseconds) p.maxBackoff.nanoseconds := by
  have hn : min (n + 1 - 1) 16 = min (n - 1) 16 + 1 := by omega
  have hdouble : p.backoff.nanoseconds * 2 ^ (min (n - 1) 16 + 1) =
      2 * (p.backoff.nanoseconds * 2 ^ min (n - 1) 16) := by
    rw [Nat.pow_succ, ← Nat.mul_assoc, Nat.mul_comm]
  rw [nanoseconds_delay, nanoseconds_delay, hn, hdouble]
  generalize p.backoff.nanoseconds * 2 ^ min (n - 1) 16 = pause
  omega

/-- The pause after attempt number `n` is the first pause doubled `n - 1` times but at most 16, or the
    longest one if that is shorter, with no rounding and no end of the numbers in sight. So it is
    never longer than the longest one, it grows with the attempts and with both spans of the policy,
    and each of the first sixteen pauses is doubled in the next one. -/
theorem delay_exact (n : Nat) :
    (p.delay n).nanoseconds =
      min (p.backoff.nanoseconds * 2 ^ min (max n 1 - 1) 16) p.maxBackoff.nanoseconds ∧
    (p.delay n).nanos.toNat < nanosPerSecond ∧
    (p.delay n).le p.maxBackoff ∧
    (∀ m, n ≤ m → (p.delay n).le (p.delay m)) ∧
    (∀ q : RetryPolicy, p.backoff.le q.backoff → p.maxBackoff.le q.maxBackoff →
      (p.delay n).le (q.delay n)) ∧
    (1 ≤ n → n ≤ 16 → (p.delay (n + 1)).nanoseconds =
      min (2 * (p.delay n).nanoseconds) p.maxBackoff.nanoseconds) := by
  refine ⟨?formula, (p.delay n).nanos_lt, ?capped, ?attempts, ?policies, ?doubles⟩
  case formula =>
    have hn : max n 1 - 1 = n - 1 := by omega
    rw [hn, nanoseconds_delay]
  case capped =>
    rw [Duration.le_iff, nanoseconds_delay]
    exact Nat.min_le_right ..
  case attempts =>
    intro m hm
    exact Duration.le_iff.2 (p.delay_le_delay hm (Nat.le_refl _) (Nat.le_refl _))
  case policies =>
    intro q hb hm
    exact Duration.le_iff.2
      (p.delay_le_delay (Nat.le_refl n) (Duration.le_iff.1 hb) (Duration.le_iff.1 hm))
  case doubles =>
    intro first last
    exact p.nanoseconds_delay_succ first last

/-- A first pause of half the greatest span and more. Twice as long there is no span, and the second
    pause is the longest one. -/
theorem delay_exact_past_greatest :
    let p : RetryPolicy := ⟨3, ⟨9223372036854775808, 999999999, by decide⟩, .greatest⟩
    Duration.greatest.nanoseconds < 2 * (p.delay 1).nanoseconds ∧
      (p.delay 2).nanoseconds = min (2 * (p.delay 1).nanoseconds) p.maxBackoff.nanoseconds ∧
      p.delay 2 = .greatest := by
  intro p
  obtain ⟨-, -, -, -, -, doubles⟩ := p.delay_exact 1
  exact ⟨by decide, doubles (by decide) (by decide), by decide⟩

end RetryPolicy
end TwoPhaseCommit
