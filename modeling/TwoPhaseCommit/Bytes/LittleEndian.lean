import TwoPhaseCommit.Bytes

/- Fixed-width numbers, the least significant byte first. `read_write` gives a written number
   back and leaves what follows it; `eq_write_of_read` says that nothing else is read, so the
   `w`-byte numbers and the numbers below `bound w` are in step. -/
namespace TwoPhaseCommit.LittleEndian

/-- How many numbers `w` bytes can hold. -/
def bound : Nat → Nat
  | 0 => 1
  | w+1 => 256 * bound w

/-- The `w` low bytes of `n`, the lowest first. -/
def write : Nat → Nat → Bytes
  | 0, _ => []
  | w+1, n => UInt8.ofNat n :: write w (n / 256)

/-- The number in the first `w` bytes and what follows them, when there are `w` bytes. -/
def read : Nat → Bytes → Option (Nat × Bytes)
  | 0, bs => some (0, bs)
  | _+1, [] => none
  | w+1, b :: bs =>
    match read w bs with
    | none => none
    | some (n, rest) => some (b.toNat + 256 * n, rest)

@[simp] theorem length_write : ∀ (w n : Nat), (write w n).length = w
  | 0, _ => rfl
  | w+1, n => by rw [write, List.length_cons, length_write w]

theorem read_write : ∀ (w n : Nat) (t : Bytes), n < bound w → read w (write w n ++ t) = some (n, t)
  | 0, n, t, h => by
    have : n = 0 := by simpa [bound] using h
    simp [write, read, this]
  | w+1, n, t, h => by
    have hn : n / 256 < bound w := Nat.div_lt_of_lt_mul h
    simp only [write, List.cons_append, read, read_write w _ t hn, UInt8.toNat_ofNat']
    congr 2
    omega

theorem read_eq_none_iff : ∀ {w : Nat} {bs : Bytes}, read w bs = none ↔ bs.length < w
  | 0, bs => by simp [read]
  | w+1, [] => by simp [read]
  | w+1, b :: bs => by
    rw [read, List.length_cons, Nat.add_lt_add_iff_right, ← read_eq_none_iff]
    cases read w bs <;> simp

theorem read_lt : ∀ {w n : Nat} {bs t : Bytes}, read w bs = some (n, t) → n < bound w
  | 0, n, bs, t, h => by
    simp only [read, Option.some.injEq, Prod.mk.injEq] at h
    simp [bound, ← h.1]
  | w+1, n, [], t, h => by simp [read] at h
  | w+1, n, b :: bs, t, h => by
    rw [read] at h
    split at h
    · simp at h
    · next m rest hr =>
      simp only [Option.some.injEq, Prod.mk.injEq] at h
      have := read_lt hr
      have := b.toNat_lt
      rw [bound]
      omega

theorem eq_write_of_read : ∀ {w n : Nat} {bs t : Bytes},
    read w bs = some (n, t) → bs = write w n ++ t
  | 0, n, bs, t, h => by
    simp only [read, Option.some.injEq, Prod.mk.injEq] at h
    simp [write, h.2]
  | w+1, n, [], t, h => by simp [read] at h
  | w+1, n, b :: bs, t, h => by
    rw [read] at h
    split at h
    · simp at h
    · next m rest hr =>
      simp only [Option.some.injEq, Prod.mk.injEq] at h
      obtain ⟨rfl, rfl⟩ := h
      have hb := b.toNat_lt
      have hd : (b.toNat + 256 * m) / 256 = m := by omega
      have hm : UInt8.ofNat (b.toNat + 256 * m) = b := by
        apply UInt8.toNat_inj.1
        rw [UInt8.toNat_ofNat']
        omega
      rw [write, hd, hm, List.cons_append, ← eq_write_of_read hr]

/-- Bytes that are long enough begin with a number. -/
theorem exists_eq_write {w : Nat} {bs : Bytes} (h : w ≤ bs.length) :
    ∃ n t, n < bound w ∧ bs = write w n ++ t := by
  cases hr : read w bs with
  | none => exact absurd (read_eq_none_iff.1 hr) (Nat.not_lt.2 h)
  | some p => exact ⟨p.1, p.2, read_lt hr, eq_write_of_read hr⟩

end TwoPhaseCommit.LittleEndian
