import Mathlib.Algebra.Group.Nat.Defs
import TwoPhaseCommit.Numeral

/- Numbers are read from text as they were written. The digits at the beginning of a text are told by
   the values of its characters (`digits_append`), and those that write a number have its value and no
   superfluous zero in front (`exists_digits`). So a number is read again in every form that has room for
   it, whatever follows but a digit (`read_toDigits`). -/
namespace TwoPhaseCommit.Numeral

/-- A text that does not go on with a digit. -/
def Ends (base : Nat) (rest : List Char) : Prop := ∀ c ∈ rest.head?, digit? base c = none

theorem ends_nil (base : Nat) : Ends base [] := nofun

theorem ends_cons {base : Nat} {c : Char} (h : digit? base c = none) (rest : List Char) :
    Ends base (c :: rest) := by
  intro d hd
  cases hd
  exact h

variable {base : Nat} {rest : List Char}

theorem digits_of_ends (h : Ends base rest) : digits base rest = ([], rest) := by
  cases rest with
  | nil => rfl
  | cons c rest => rw [digits, h c rfl]

theorem read_of_ends (f : Numeral) (h : Ends f.base rest) : f.read rest = none := by
  rw [read, digits_of_ends h]
  rfl

theorem digits_append (h : Ends base rest) : ∀ {cs : List Char} {ds : List Nat},
    cs.map (digit? base) = ds.map some → digits base (cs ++ rest) = (ds, rest)
  | [], [], _ => digits_of_ends h
  | c :: cs, d :: ds, hds => by
    obtain ⟨hd, hds⟩ := List.cons.inj hds
    rw [List.cons_append, digits, hd, digits_append h hds]

theorem value_append_singleton (ds : List Nat) (d : Nat) :
    value base (ds ++ [d]) = value base ds * base + d := by
  rw [value, List.foldl_append, List.foldl_cons, List.foldl_nil, value]

theorem digit?_digitChar {d : Nat} (hd : d < base) (hbase : base ≤ 16) :
    digit? base d.digitChar = some d := by
  have all : ∀ d < 16, ∀ b ≤ 16, d < b → digit? b d.digitChar = some d := by decide
  exact all d (Nat.lt_of_lt_of_le hd hbase) base hbase hd

/-- The digits that write a number. They begin with a zero only if it is zero. -/
theorem exists_digits (one_lt : 1 < base) (hbase : base ≤ 16) (n : Nat) : ∃ ds,
    (Nat.toDigits base n).map (digit? base) = ds.map some ∧ value base ds = n ∧
      (0 < n → ds.head? ≠ some 0) := by
  induction n using Nat.strongRecOn with
  | _ n ih =>
    by_cases hn : n < base
    · refine ⟨[n], ?_, by simp [value], ?_⟩
      · rw [Nat.toDigits_of_lt_base hn, List.map_singleton, digit?_digitChar hn hbase]
        rfl
      · intro pos h
        exact absurd (Option.some.inj h) (Nat.ne_of_gt pos)
    · have pos : 0 < n / base := Nat.div_pos (Nat.le_of_not_lt hn) (by omega)
      obtain ⟨ds, hds, hvalue, hhead⟩ := ih (n / base) (Nat.div_lt_self (by omega) one_lt)
      refine ⟨ds ++ [n % base], ?_, ?_, fun _ => ?_⟩
      · rw [Nat.toDigits_of_base_le one_lt (Nat.le_of_not_lt hn), List.map_append, hds,
          List.map_append, List.map_singleton, digit?_digitChar (Nat.mod_lt _ (by omega)) hbase]
        rfl
      · rw [value_append_singleton, hvalue, Nat.div_add_mod']
      · cases ds with
        | nil =>
          rw [← hvalue] at pos
          exact absurd pos (Nat.lt_irrefl 0)
        | cons d ds => exact hhead pos

/-- A number is read as it was written if it is not too large for the form and no digit follows. -/
theorem read_toDigits (f : Numeral) (one_lt : 1 < f.base) (hbase : f.base ≤ 16) {n : Nat}
    (lt_bound : n < f.bound) (fits : ∀ w ∈ f.width, 0 < w ∧ n < f.base ^ w) (h : Ends f.base rest) :
    f.read (Nat.toDigits f.base n ++ rest) = some (n, rest) := by
  obtain ⟨ds, hds, hvalue, hhead⟩ := exists_digits one_lt hbase n
  have hlength : ds.length = (Nat.toDigits f.base n).length := by
    rw [← List.length_map (f := some), ← hds, List.length_map]
  have nonempty : ds ≠ [] := by
    intro hnil
    rw [hnil] at hlength
    exact absurd hlength (Nat.ne_of_lt Nat.length_toDigits_pos)
  have inWidth : f.width.all (fun w => ds.length ≤ w) = true := by
    rw [Option.all_eq_true]
    intro w hw
    obtain ⟨pos, lt⟩ := fits w hw
    rw [hlength]
    exact decide_eq_true ((Nat.length_toDigits_le_iff one_lt pos).2 lt)
  have canonical : ds.length ≤ 1 ∨ ds.head? ≠ some 0 := by
    by_cases pos : 0 < n
    · exact .inr (hhead pos)
    · have hn : n = 0 := Nat.eq_zero_of_not_pos pos
      rw [hlength, hn, Nat.toDigits_zero]
      exact .inl (Nat.le_refl _)
  have admitted : f.admits ds = true := by
    rw [admits, inWidth, hvalue]
    simp only [Bool.and_eq_true, Bool.or_eq_true, Bool.not_eq_true', decide_eq_true_eq,
      bne_iff_ne, List.isEmpty_eq_false_iff]
    exact ⟨⟨⟨nonempty, trivial⟩, (or_assoc.2 (.inr canonical))⟩, lt_bound⟩
  rw [read, digits_append h hds]
  dsimp only
  rw [if_pos admitted, hvalue]

/-! ## Decimal numbers as texts of their own -/

theorem digit?_ten {c : Char} (h : c.isDigit) : digit? 10 c = some (c.toNat - 48) := by
  have hc : 48 ≤ c.toNat ∧ c.toNat ≤ 57 := by
    rw [Char.isDigit, Bool.and_eq_true, decide_eq_true_eq, decide_eq_true_eq] at h
    exact h
  rw [digit?, if_pos hc]
  exact if_pos (by omega)

/-- A text of decimal digits is read as the number that they spell, with any zeros in front. -/
theorem readAll_decimal {bound : Nat} {cs : List Char} (nonempty : cs ≠ [])
    (allDigits : ∀ c ∈ cs, c.isDigit) (lt_bound : Nat.ofDigitChars 10 cs 0 < bound) :
    (decimal bound).readAll cs = some (Nat.ofDigitChars 10 cs 0) := by
  have hds : cs.map (digit? 10) = (cs.map fun c => c.toNat - 48).map some := by
    rw [List.map_map]
    exact List.map_congr_left fun c hc => digit?_ten (allDigits c hc)
  have hdigits := digits_append (ends_nil 10) hds
  have hvalue : value 10 (cs.map fun c => c.toNat - 48) = Nat.ofDigitChars 10 cs 0 := by
    rw [value, List.foldl_map, Nat.ofDigitChars_eq_foldl]
    simp only [Nat.mul_comm]
    rfl
  have admitted : (decimal bound).admits (cs.map fun c => c.toNat - 48) = true := by
    simp [admits, decimal, hvalue, lt_bound, nonempty]
  rw [List.append_nil] at hdigits
  rw [readAll, read, show (decimal bound).base = 10 from rfl, hdigits]
  dsimp only
  rw [if_pos admitted, hvalue]

end TwoPhaseCommit.Numeral
