import TwoPhaseCommit.Bytes

/- Numbers of 64 bits in as few bytes as they need: seven bits a byte, the lowest first, and the
   top bit set on every byte but the last. `read` takes at most ten bytes, and takes longer forms
   than needed; `read_write` gives a written number back and leaves what follows it. -/
namespace TwoPhaseCommit.Proto.Varint

/-- How many numbers `k + 1` bytes can hold, if the last one holds one bit. -/
def bound : Nat → Nat
  | 0 => 2
  | k+1 => 128 * bound k

/-- The number in at most `k + 1` bytes. -/
def writeUpTo : Nat → Nat → Bytes
  | 0, n => [UInt8.ofNat n]
  | k+1, n =>
    if n < 128 then [UInt8.ofNat n] else UInt8.ofNat (n % 128 + 128) :: writeUpTo k (n / 128)

/-- The number at the beginning, in at most `k + 1` bytes. The last byte allowed holds one bit. -/
def readUpTo : Nat → Bytes → Option (Nat × Bytes)
  | _, [] => none
  | 0, b :: bs => if b.toNat < 2 then some (b.toNat, bs) else none
  | k+1, b :: bs =>
    if b.toNat < 128 then some (b.toNat, bs)
    else match readUpTo k bs with
      | some (n, rest) => some (b.toNat - 128 + 128 * n, rest)
      | none => none

def write (n : Nat) : Bytes := writeUpTo 9 n

def read (bs : Bytes) : Option (Nat × Bytes) := readUpTo 9 bs

theorem bound_pos : ∀ (k : Nat), 0 < bound k
  | 0 => by decide
  | k+1 => Nat.mul_pos (by decide) (bound_pos k)

theorem readUpTo_writeUpTo : ∀ (k n : Nat) (t : Bytes), n < bound k →
    readUpTo k (writeUpTo k n ++ t) = some (n, t)
  | 0, n, t, h => by
    rw [bound] at h
    have e : n % 2 ^ 8 = n := by omega
    simp only [writeUpTo, List.cons_append, List.nil_append, readUpTo, UInt8.toNat_ofNat', e]
    rw [if_pos (by omega)]
  | k+1, n, t, h => by
    rw [writeUpTo]
    split
    · have e : n % 2 ^ 8 = n := by omega
      simp only [List.cons_append, List.nil_append, readUpTo, UInt8.toNat_ofNat', e]
      rw [if_pos (by omega)]
    · have e : (n % 128 + 128) % 2 ^ 8 = n % 128 + 128 := by omega
      have hn : n / 128 < bound k := Nat.div_lt_of_lt_mul h
      simp only [List.cons_append, readUpTo, UInt8.toNat_ofNat', e]
      rw [if_neg (by omega), readUpTo_writeUpTo k _ t hn]
      simp only [Option.some.injEq, Prod.mk.injEq, and_true]
      omega

theorem read_write (n : Nat) (t : Bytes) (h : n < UInt64.size) : read (write n ++ t) = some (n, t) :=
  readUpTo_writeUpTo 9 n t h

theorem readUpTo_lt : ∀ {k n : Nat} {bs t : Bytes}, readUpTo k bs = some (n, t) → n < bound k
  | k, n, [], t, h => by cases k <;> simp [readUpTo] at h
  | 0, n, b :: bs, t, h => by
    rw [readUpTo] at h
    split at h
    · simp only [Option.some.injEq, Prod.mk.injEq] at h
      rw [bound]
      omega
    · simp at h
  | k+1, n, b :: bs, t, h => by
    have hb := b.toNat_lt
    have hp := bound_pos k
    rw [readUpTo] at h
    rw [bound]
    split at h
    · simp only [Option.some.injEq, Prod.mk.injEq] at h
      omega
    · split at h
      · next m rest hr =>
        have := readUpTo_lt hr
        simp only [Option.some.injEq, Prod.mk.injEq] at h
        omega
      · simp at h

theorem read_lt {n : Nat} {bs t : Bytes} (h : read bs = some (n, t)) : n < UInt64.size :=
  readUpTo_lt h

theorem readUpTo_length : ∀ {k n : Nat} {bs t : Bytes}, readUpTo k bs = some (n, t) →
    t.length < bs.length
  | k, n, [], t, h => by cases k <;> simp [readUpTo] at h
  | 0, n, b :: bs, t, h => by
    rw [readUpTo] at h
    split at h
    · simp only [Option.some.injEq, Prod.mk.injEq] at h
      simp [h.2]
    · simp at h
  | k+1, n, b :: bs, t, h => by
    rw [readUpTo] at h
    split at h
    · simp only [Option.some.injEq, Prod.mk.injEq] at h
      simp [h.2]
    · split at h
      · next m rest hr =>
        have := readUpTo_length hr
        simp only [Option.some.injEq, Prod.mk.injEq] at h
        simp only [List.length_cons, ← h.2]
        omega
      · simp at h

end TwoPhaseCommit.Proto.Varint
