import TwoPhaseCommit.Bytes

/- Readers: functions that take a value from the front of some bytes and give back the rest, or fail.
   Two of them one after the other succeed if both do (`exists_of_bind_eq_ok`), and if neither looks at
   what it gives back, both together do not (`TakesPrefix.bind`). -/
namespace TwoPhaseCommit
variable {ε α β : Type}

/-- Where two steps succeed, the first of them does. -/
theorem exists_of_bind_eq_ok {x : Except ε α} {f : α → Except ε β} {b : β}
    (h : (x >>= f) = .ok b) : ∃ a, x = .ok a ∧ f a = .ok b := by
  cases x with
  | error e => cases h
  | ok a => exact ⟨a, rfl, h⟩

/-- The reader takes bytes from the front, and what follows them makes no difference to it. -/
def TakesPrefix (read : Bytes → Except ε (α × Bytes)) : Prop :=
  ∀ bs a t, read bs = .ok (a, t) → ∃ v, bs = v ++ t ∧ ∀ t', read (v ++ t') = .ok (a, t')

namespace TakesPrefix

theorem pure' (a : α) : TakesPrefix fun bs => (.ok (a, bs) : Except ε (α × Bytes)) := by
  intro bs b t h
  cases h
  exact ⟨[], rfl, fun _ => rfl⟩

theorem bind {read : Bytes → Except ε (α × Bytes)} (first : TakesPrefix read)
    (next : α → Bytes → Except ε (β × Bytes)) (second : ∀ a, TakesPrefix (next a)) :
    TakesPrefix (fun bs => do let (a, bs) ← read bs; next a bs) := by
  intro bs b t h
  obtain ⟨⟨a, rest⟩, hread, hnext⟩ := exists_of_bind_eq_ok h
  obtain ⟨v, rfl, hv⟩ := first _ _ _ hread
  obtain ⟨v', rfl, hv'⟩ := second a _ _ _ hnext
  refine ⟨v ++ v', (List.append_assoc ..).symm, fun t' => ?_⟩
  dsimp only
  rw [List.append_assoc, hv]
  exact hv' t'

end TakesPrefix
end TwoPhaseCommit
