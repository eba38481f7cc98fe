import TwoPhaseCommit.SortedMap.Lookup

/- The entries of a map. `get?_eq_some_iff` ties what a map answers to its list of entries, and
   `ofList_entries` builds a map from its own list again. Where the keys are 32-bit numbers below a
   bound, there are no more entries than numbers below it (`KeysBelow.size_le`). A map with that many
   holds something under each of them (`KeysBelow.exists_get?_of_full`), one with fewer leaves one
   out (`exists_get?_eq_none`). -/
namespace TwoPhaseCommit.SortedMap

section
variable {κ ν : Type} [Ord κ] [Std.TransOrd κ] [Std.LawfulEqOrd κ]

omit [Std.LawfulEqOrd κ] in
theorem not_lt_self (k : κ) : compare k k ≠ .lt := by
  have h : compare k k = .eq := Std.ReflCmp.compare_self
  rw [h]
  decide

theorem find_eq_some_iff {k : κ} {v : ν} : ∀ {l : List (κ × ν)},
    l.Pairwise (fun a b => compare a.1 b.1 = .lt) → (find k l = some v ↔ (k, v) ∈ l)
  | [], _ => by simp [find]
  | (a, w) :: rest, h => by
    obtain ⟨ha, hr⟩ := List.pairwise_cons.1 h
    have hlt : ∀ u, (k, u) ∈ rest → compare a k = .lt := fun u hu => ha (k, u) hu
    rw [find, List.mem_cons]
    split
    · next hk =>
      refine ⟨fun hn => absurd hn (by simp), ?_⟩
      intro he
      rcases he with he | he
      · rw [(Prod.mk.inj he).1] at hk
        exact absurd hk (not_lt_self a)
      · exact absurd (Std.TransCmp.lt_trans hk (hlt v he)) (not_lt_self k)
    · next hk =>
      have hka : k = a := Std.LawfulEqCmp.eq_of_compare hk
      subst hka
      refine ⟨fun he => .inl (by rw [Option.some.inj he]), ?_⟩
      intro he
      rcases he with he | he
      · rw [(Prod.mk.inj he).2]
      · exact absurd (hlt v he) (not_lt_self k)
    · next hk =>
      rw [find_eq_some_iff hr]
      refine ⟨.inr, ?_⟩
      intro he
      rcases he with he | he
      · rw [(Prod.mk.inj he).1] at hk
        exact absurd (Std.OrientedCmp.lt_of_gt hk) (not_lt_self a)
      · exact he

theorem get?_eq_some_iff (m : SortedMap κ ν) {k : κ} {v : ν} :
    m.get? k = some v ↔ (k, v) ∈ m.entries :=
  find_eq_some_iff m.ascending

theorem mem_values_iff (m : SortedMap κ ν) {v : ν} : v ∈ m.values ↔ ∃ k, m.get? k = some v := by
  constructor
  · intro h
    obtain ⟨⟨k, w⟩, he, rfl⟩ := List.mem_map.1 h
    exact ⟨k, (get?_eq_some_iff m).2 he⟩
  · intro h
    obtain ⟨k, h⟩ := h
    exact List.mem_map.2 ⟨(k, v), (get?_eq_some_iff m).1 h, rfl⟩

omit [Std.TransOrd κ] [Std.LawfulEqOrd κ] in
@[simp] theorem length_values (m : SortedMap κ ν) : m.values.length = m.size := List.length_map ..

omit [Std.LawfulEqOrd κ] in
/-- A key above all others goes to the end. -/
theorem place_of_gt {k : κ} {v : ν} : ∀ {l : List (κ × ν)}, (∀ e ∈ l, compare e.1 k = .lt) →
    place k v l = l ++ [(k, v)]
  | [], _ => rfl
  | (a, w) :: rest, h => by
    have ha : compare k a = .gt := Std.OrientedCmp.gt_of_lt (h (a, w) List.mem_cons_self)
    rw [place, ha]
    simp only [List.cons_append, List.cons.injEq, true_and]
    exact place_of_gt fun e he => h e (List.mem_cons_of_mem _ he)

omit [Std.LawfulEqOrd κ] in
theorem entries_foldl_insert : ∀ (l : List (κ × ν)) (m : SortedMap κ ν),
    (m.entries ++ l).Pairwise (fun a b => compare a.1 b.1 = .lt) →
    (l.foldl (fun m p => m.insert p.1 p.2) m).entries = m.entries ++ l
  | [], m, _ => by simp
  | (k, v) :: rest, m, h => by
    have hm : (m.insert k v).entries = m.entries ++ [(k, v)] :=
      place_of_gt fun e he => (List.pairwise_append.1 h).2.2 e he (k, v) List.mem_cons_self
    rw [List.foldl_cons, entries_foldl_insert rest (m.insert k v) (by rw [hm]; simpa using h), hm,
      List.append_assoc, List.singleton_append]

omit [Std.LawfulEqOrd κ] in
theorem ofList_entries (m : SortedMap κ ν) : ofList m.entries = m := by
  apply ext
  rw [ofList, entries_foldl_insert m.entries empty m.ascending]
  rfl

omit [Std.TransOrd κ] [Std.LawfulEqOrd κ] in
theorem length_place (k : κ) (v : ν) : ∀ l : List (κ × ν),
    (place k v l).length = if (find k l).isSome then l.length else l.length + 1
  | [] => rfl
  | (a, w) :: rest => by
    have ih := length_place k v rest
    rw [place, find]
    split
    · rfl
    · rfl
    · rw [List.length_cons, List.length_cons, ih]
      split <;> rfl

omit [Std.LawfulEqOrd κ] in
/-- A new key makes a map larger by one, a key that it holds leaves its size. -/
theorem size_insert (m : SortedMap κ ν) (k : κ) (v : ν) :
    (m.insert k v).size = if (m.get? k).isSome then m.size else m.size + 1 :=
  length_place k v m.entries

omit [Std.LawfulEqOrd κ] in
theorem size_foldl_insert_le : ∀ (l : List (κ × ν)) (m : SortedMap κ ν),
    (l.foldl (fun m p => m.insert p.1 p.2) m).size ≤ m.size + l.length
  | [], _ => Nat.le_refl _
  | (k, v) :: rest, m => by
    have ih := size_foldl_insert_le rest (m.insert k v)
    have hm : (m.insert k v).size ≤ m.size + 1 := by
      rw [size_insert]
      split <;> omega
    rw [List.foldl_cons, List.length_cons]
    dsimp only
    omega

omit [Std.LawfulEqOrd κ] in
/-- A pair is one entry at most: a later one with its key takes its place. -/
theorem size_ofList_le (l : List (κ × ν)) : (ofList l).size ≤ l.length := by
  have h := size_foldl_insert_le l (empty : SortedMap κ ν)
  rwa [show (empty : SortedMap κ ν).size = 0 from rfl, Nat.zero_add] at h

end

/-! ## Keys below a bound -/

variable {ν : Type}

/-- Ascending numbers from `low` on and below `bound` are at most `bound - low` in number. -/
theorem length_le_of_lt {bound : Nat} : ∀ {l : List (UInt32 × ν)} {low : Nat},
    l.Pairwise (fun a b => compare a.1 b.1 = .lt) → low ≤ bound →
    (∀ e ∈ l, low ≤ e.1.toNat ∧ e.1.toNat < bound) → l.length + low ≤ bound
  | [], low, _, hle, _ => by simpa using hle
  | (k, v) :: rest, low, h, hle, hb => by
    obtain ⟨hk, hr⟩ := List.pairwise_cons.1 h
    have hkb : low ≤ k.toNat ∧ k.toNat < bound := hb (k, v) List.mem_cons_self
    have ih : rest.length + (k.toNat + 1) ≤ bound := length_le_of_lt hr hkb.2 fun e he =>
      ⟨UInt32.lt_iff_toNat_lt.1 (Std.compare_eq_lt.1 (hk e he)),
        (hb e (List.mem_cons_of_mem _ he)).2⟩
    rw [List.length_cons]
    omega

/-- If they are exactly that many, none of them is left out. -/
theorem exists_mem_of_full {bound : Nat} : ∀ {l : List (UInt32 × ν)} {low : Nat},
    l.Pairwise (fun a b => compare a.1 b.1 = .lt) →
    (∀ e ∈ l, low ≤ e.1.toNat ∧ e.1.toNat < bound) → l.length + low = bound →
    ∀ k : UInt32, low ≤ k.toNat → k.toNat < bound → ∃ v, (k, v) ∈ l
  | [], low, _, _, hl, k, hlow, hk => by
    simp only [List.length_nil, Nat.zero_add] at hl
    omega
  | (a, v) :: rest, low, h, hb, hl, k, hlow, hk => by
    obtain ⟨ha, hr⟩ := List.pairwise_cons.1 h
    have hab : low ≤ a.toNat ∧ a.toNat < bound := hb (a, v) List.mem_cons_self
    have hrest : ∀ e ∈ rest, a.toNat + 1 ≤ e.1.toNat ∧ e.1.toNat < bound := fun e he =>
      ⟨UInt32.lt_iff_toNat_lt.1 (Std.compare_eq_lt.1 (ha e he)),
        (hb e (List.mem_cons_of_mem _ he)).2⟩
    have hle := length_le_of_lt hr hab.2 hrest
    rw [List.length_cons] at hl
    by_cases hka : k = a
    · exact ⟨v, by rw [hka]; exact List.mem_cons_self⟩
    · have hne : k.toNat ≠ a.toNat := fun e => hka (UInt32.toNat_inj.1 e)
      obtain ⟨w, hw⟩ := exists_mem_of_full hr hrest (by omega) k (by omega) hk
      exact ⟨w, List.mem_cons_of_mem _ hw⟩

/-- If they are all there, they are that many. -/
theorem le_length_of_forall {bound : Nat} (hbound : bound ≤ UInt32.size) :
    ∀ {l : List (UInt32 × ν)} {low : Nat}, l.Pairwise (fun a b => compare a.1 b.1 = .lt) →
    (∀ e ∈ l, low ≤ e.1.toNat) →
    (∀ k : UInt32, low ≤ k.toNat → k.toNat < bound → ∃ v, (k, v) ∈ l) → bound ≤ l.length + low
  | l, low, h, hl, hall => by
    by_cases hlow : low < bound
    · -- the least of them is the first entry
      have htoNat : (UInt32.ofNat low).toNat = low := UInt32.toNat_ofNat_of_lt (by omega)
      obtain ⟨v, hv⟩ := hall (UInt32.ofNat low) (by omega) (by omega)
      match l, h, hl, hall, hv with
      | (a, w) :: rest, h, hl, hall, hv =>
        obtain ⟨ha, hr⟩ := List.pairwise_cons.1 h
        have hlt : ∀ e ∈ rest, a.toNat < e.1.toNat := fun e he =>
          UInt32.lt_iff_toNat_lt.1 (Std.compare_eq_lt.1 (ha e he))
        have hla : low ≤ a.toNat := hl (a, w) List.mem_cons_self
        have hal : a.toNat = low := by
          rcases List.mem_cons.1 hv with he | he
          · rw [← (Prod.mk.inj he).1, htoNat]
          · have hgt : a.toNat < (UInt32.ofNat low).toNat := hlt _ he
            omega
        have hrest : ∀ e ∈ rest, low + 1 ≤ e.1.toNat := by
          intro e he
          have hgt := hlt e he
          omega
        have hmem : ∀ k : UInt32, low + 1 ≤ k.toNat → k.toNat < bound → ∃ v, (k, v) ∈ rest := by
          intro k hk hkb
          obtain ⟨u, hu⟩ := hall k (by omega) hkb
          rcases List.mem_cons.1 hu with he | he
          · rw [(Prod.mk.inj he).1] at hk
            omega
          · exact ⟨u, he⟩
        have ih := le_length_of_forall hbound hr hrest hmem
        rw [List.length_cons]
        omega
    · omega

/-- All keys of a map are below a bound. -/
def KeysBelow (m : SortedMap UInt32 ν) (bound : Nat) : Prop :=
  ∀ k v, m.get? k = some v → k.toNat < bound

theorem KeysBelow.entries {m : SortedMap UInt32 ν} {bound : Nat} (h : m.KeysBelow bound) :
    ∀ e ∈ m.entries, 0 ≤ e.1.toNat ∧ e.1.toNat < bound :=
  fun e he => ⟨Nat.zero_le _, h e.1 e.2 ((get?_eq_some_iff m).2 he)⟩

theorem KeysBelow.empty (bound : Nat) : (empty : SortedMap UInt32 ν).KeysBelow bound :=
  fun _ _ h => absurd h (by simp)

theorem KeysBelow.insert {m : SortedMap UInt32 ν} {bound : Nat} (h : m.KeysBelow bound)
    {k : UInt32} (hk : k.toNat < bound) (v : ν) : (m.insert k v).KeysBelow bound := by
  intro j w hj
  rw [get?_insert] at hj
  split at hj
  · next e => rw [e]; exact hk
  · exact h j w hj

theorem KeysBelow.size_le {m : SortedMap UInt32 ν} {bound : Nat} (h : m.KeysBelow bound) :
    m.size ≤ bound :=
  length_le_of_lt m.ascending (Nat.zero_le _) h.entries

theorem KeysBelow.exists_get?_of_full {m : SortedMap UInt32 ν} {bound : Nat} (h : m.KeysBelow bound)
    (hs : m.size = bound) {k : UInt32} (hk : k.toNat < bound) : ∃ v, m.get? k = some v := by
  obtain ⟨v, hv⟩ := exists_mem_of_full m.ascending h.entries hs k (Nat.zero_le _) hk
  exact ⟨v, (get?_eq_some_iff m).2 hv⟩

theorem exists_get?_eq_none {m : SortedMap UInt32 ν} {bound : Nat}
    (hb : bound ≤ UInt32.size) (hs : m.size < bound) :
    ∃ k : UInt32, k.toNat < bound ∧ m.get? k = none := by
  apply Classical.byContradiction
  intro hne
  have hall : ∀ k : UInt32, 0 ≤ k.toNat → k.toNat < bound → ∃ v, (k, v) ∈ m.entries := by
    intro k _ hk
    cases hv : m.get? k with
    | none => exact absurd ⟨k, hk, hv⟩ hne
    | some v => exact ⟨v, (get?_eq_some_iff m).1 hv⟩
  have hle : bound ≤ m.entries.length + 0 :=
    le_length_of_forall hb m.ascending (fun _ _ => Nat.zero_le _) hall
  exact absurd hs (Nat.not_lt.2 hle)

theorem size_lt (m : SortedMap UInt32 ν) : m.size < UInt64.size := by
  have h : m.KeysBelow UInt32.size := fun k _ _ => k.toNat_lt
  exact Nat.lt_of_le_of_lt h.size_le (by decide)

end TwoPhaseCommit.SortedMap
