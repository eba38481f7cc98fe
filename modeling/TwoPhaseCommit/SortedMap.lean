/- Finite maps as strictly ascending lists of keys and values. There is one list for what a map
   holds, so maps that hold the same are equal. `insert` puts a value under a key, in place of the
   one that was there. -/
namespace TwoPhaseCommit

/-- A finite map from `κ` to `ν`, its entries in ascending order of their keys. -/
structure SortedMap (κ ν : Type) [Ord κ] where
  entries : List (κ × ν)
  ascending : entries.Pairwise fun a b => compare a.1 b.1 = .lt

namespace SortedMap
variable {κ ν : Type} [Ord κ]

instance [DecidableEq κ] [DecidableEq ν] : DecidableEq (SortedMap κ ν) := fun a b =>
  decidable_of_iff (a.entries = b.entries) (by cases a; cases b; simp)

@[ext] theorem ext {a b : SortedMap κ ν} (h : a.entries = b.entries) : a = b := by
  cases a; cases b; cases h; rfl

/-- The map that holds nothing. -/
def empty : SortedMap κ ν := ⟨[], .nil⟩

def size (m : SortedMap κ ν) : Nat := m.entries.length

/-- The values, in ascending order of their keys. -/
def values (m : SortedMap κ ν) : List ν := m.entries.map Prod.snd

/-- The value under `k` in a list of entries. -/
def find (k : κ) : List (κ × ν) → Option ν
  | [] => none
  | (a, v) :: rest => match compare k a with
    | .lt => none
    | .eq => some v
    | .gt => find k rest

def get? (m : SortedMap κ ν) (k : κ) : Option ν := find k m.entries

/-- The entries with `v` under `k`, in place of what was there. -/
def place (k : κ) (v : ν) : List (κ × ν) → List (κ × ν)
  | [] => [(k, v)]
  | (a, w) :: rest => match compare k a with
    | .lt => (k, v) :: (a, w) :: rest
    | .eq => (k, v) :: rest
    | .gt => (a, w) :: place k v rest

theorem mem_place {k : κ} {v : ν} {e : κ × ν} : ∀ {l : List (κ × ν)}, e ∈ place k v l → e = (k, v) ∨ e ∈ l
  | [], h => by simpa [place] using h
  | (a, w) :: rest, h => by
    rw [place] at h
    split at h
    · simpa using h
    · rcases List.mem_cons.1 h with h | h
      · exact .inl h
      · exact .inr (List.mem_cons_of_mem _ h)
    · rcases List.mem_cons.1 h with h | h
      · exact .inr (h ▸ List.mem_cons_self)
      · exact (mem_place h).imp id (List.mem_cons_of_mem _)

variable [Std.TransOrd κ]

theorem ascending_place (k : κ) (v : ν) : ∀ {l : List (κ × ν)},
    l.Pairwise (fun a b => compare a.1 b.1 = .lt) →
    (place k v l).Pairwise fun a b => compare a.1 b.1 = .lt
  | [], _ => by simp [place]
  | (a, w) :: rest, h => by
    obtain ⟨ha, hr⟩ := List.pairwise_cons.1 h
    rw [place]
    split
    · next hk =>
      refine List.pairwise_cons.2 ⟨fun e he => ?_, h⟩
      rcases List.mem_cons.1 he with rfl | he
      · exact hk
      · exact Std.TransCmp.lt_trans hk (ha e he)
    · next hk =>
      exact List.pairwise_cons.2 ⟨fun e he => Std.TransCmp.lt_of_eq_of_lt hk (ha e he), hr⟩
    · next hk =>
      refine List.pairwise_cons.2 ⟨fun e he => ?_, ascending_place k v hr⟩
      rcases mem_place he with rfl | he
      · exact Std.OrientedCmp.lt_of_gt hk
      · exact ha e he

/-- The map with `v` under `k`, in place of what was there. -/
def insert (m : SortedMap κ ν) (k : κ) (v : ν) : SortedMap κ ν :=
  ⟨place k v m.entries, ascending_place k v m.ascending⟩

/-- The map that pairs build, a later one replacing an earlier one with its key. -/
def ofList (pairs : List (κ × ν)) : SortedMap κ ν :=
  pairs.foldl (fun m p => m.insert p.1 p.2) empty

end SortedMap
end TwoPhaseCommit
