import TwoPhaseCommit.SortedMap

/- What a map answers after an insertion, and that a map is determined by its answers. The main
   statements are `get?_insert` and `ext_get?`. -/
namespace TwoPhaseCommit.SortedMap
variable {κ ν : Type} [Ord κ]

@[simp] theorem get?_empty (k : κ) : (empty : SortedMap κ ν).get? k = none := rfl

theorem find_eq_none_of_lt {k : κ} : ∀ {l : List (κ × ν)}, (∀ e ∈ l, compare k e.1 = .lt) → find k l = none
  | [], _ => rfl
  | (a, w) :: rest, h => by
    have := h (a, w) List.mem_cons_self
    simp only at this
    simp only [find, this]

variable [Std.TransOrd κ]

theorem find_cons_self (k : κ) (v : ν) (rest : List (κ × ν)) : find k ((k, v) :: rest) = some v := by
  simp [find, Std.ReflCmp.compare_self]

theorem find_place_self (k : κ) (v : ν) : ∀ (l : List (κ × ν)), find k (place k v l) = some v
  | [] => by simp [place, find, Std.ReflCmp.compare_self]
  | (a, w) :: rest => by
    rw [place]
    split
    · simp [find, Std.ReflCmp.compare_self]
    · simp [find, Std.ReflCmp.compare_self]
    · next h => simp only [find, h, find_place_self k v rest]

theorem get?_insert_self (m : SortedMap κ ν) (k : κ) (v : ν) : (m.insert k v).get? k = some v :=
  find_place_self k v m.entries

variable [Std.LawfulEqOrd κ]

theorem find_place_of_ne {k j : κ} (v : ν) (hne : j ≠ k) : ∀ (l : List (κ × ν)),
    l.Pairwise (fun a b => compare a.1 b.1 = .lt) → find j (place k v l) = find j l
  | [], _ => by
    simp only [place, find]
    split
    · rfl
    · next h => exact absurd (Std.LawfulEqCmp.eq_of_compare h) hne
    · rfl
  | (a, w) :: rest, hl => by
    obtain ⟨ha, hr⟩ := List.pairwise_cons.1 hl
    rw [place]
    split
    · next h =>
      simp only [find]
      split
      · next hj => rw [Std.TransCmp.lt_trans hj h]
      · next hj => exact absurd (Std.LawfulEqCmp.eq_of_compare hj) hne
      · rfl
    · next h =>
      have hk : k = a := Std.LawfulEqCmp.eq_of_compare h
      subst hk
      simp only [find]
      split
      · rfl
      · next hj => exact absurd (Std.LawfulEqCmp.eq_of_compare hj) hne
      · rfl
    · next h =>
      simp only [find]
      split
      · rfl
      · rfl
      · exact find_place_of_ne v hne rest hr

theorem get?_insert_of_ne (m : SortedMap κ ν) {k j : κ} (v : ν) (h : j ≠ k) :
    (m.insert k v).get? j = m.get? j :=
  find_place_of_ne v h m.entries m.ascending

theorem get?_insert [DecidableEq κ] (m : SortedMap κ ν) (k j : κ) (v : ν) :
    (m.insert k v).get? j = if j = k then some v else m.get? j := by
  split
  · next h => rw [h, get?_insert_self]
  · next h => exact get?_insert_of_ne m v h

/-- A map is what it holds. -/
theorem ext_get? {m n : SortedMap κ ν} (h : ∀ k, m.get? k = n.get? k) : m = n := by
  obtain ⟨l, hl⟩ := m
  obtain ⟨r, hr⟩ := n
  suffices l = r by subst this; rfl
  replace h : ∀ k, find k l = find k r := h
  induction l generalizing r with
  | nil =>
    cases r with
    | nil => rfl
    | cons b r =>
      have := h b.1
      rw [find_cons_self] at this
      simp [find] at this
  | cons a l ih =>
    obtain ⟨k, v⟩ := a
    cases r with
    | nil =>
      have := h k
      rw [find_cons_self] at this
      simp [find] at this
    | cons b r =>
      obtain ⟨j, w⟩ := b
      obtain ⟨hla, hlr⟩ := List.pairwise_cons.1 hl
      obtain ⟨hra, hrr⟩ := List.pairwise_cons.1 hr
      have hkj : k = j := by
        have h1 := h k
        have h2 := h j
        rw [find_cons_self] at h1 h2
        rw [find] at h1
        rw [find] at h2
        split at h1
        · simp at h1
        · next e => exact Std.LawfulEqCmp.eq_of_compare e
        · next e =>
          rw [Std.OrientedCmp.lt_of_gt e] at h2
          simp at h2
      subst hkj
      have hv : v = w := by
        have := h k
        rw [find_cons_self, find_cons_self] at this
        exact Option.some.inj this
      subst hv
      congr 1
      refine ih hlr r hrr fun q => ?_
      have := h q
      simp only [find] at this
      split at this
      · next e =>
        rw [find_eq_none_of_lt fun x hx => Std.TransCmp.lt_trans e (hla x hx),
          find_eq_none_of_lt fun x hx => Std.TransCmp.lt_trans e (hra x hx)]
      · next e =>
        have := Std.LawfulEqCmp.eq_of_compare e
        subst this
        rw [find_eq_none_of_lt hla, find_eq_none_of_lt hra]
      · exact this
end TwoPhaseCommit.SortedMap
