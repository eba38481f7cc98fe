import TwoPhaseCommit.Ledger
import TwoPhaseCommit.Proofs.Record.RoundTrip
import TwoPhaseCommit.Proofs.Record.WellFormed
import TwoPhaseCommit.SortedMap.Lookup

/- What a ledger holds after a write, and when a write is granted. `record?` is what is stored for a
   transaction, as a record, and in a `WellFormed` ledger all that is stored is one. -/
namespace TwoPhaseCommit.Ledger

theorem read_put (l : Ledger) (key j : String) (value : Bytes) :
    (l.put key value).read j = if j = key then some value else l.read j :=
  SortedMap.get?_insert l.cells key j value

theorem read_create (l : Ledger) (key j : String) (value : Bytes) :
    (l.create key value).2.read j = if j = key ∧ l.read key = none then some value else l.read j := by
  rw [create]
  split
  · next hk => simp [hk]
  · next hk => simp [hk, read_put]

theorem read_swap (l : Ledger) (key j : String) (expected new : Bytes) :
    (l.swap key expected new).2.read j =
      if j = key ∧ l.read key = some expected then some new else l.read j := by
  rw [swap]
  split
  · next hk => simp [hk, read_put]
  · next hk => simp [hk]

theorem swap_eq_swapped {l : Ledger} {key : String} {expected new : Bytes}
    (h : (l.swap key expected new).1 = .swapped) : l.read key = some expected := by
  rw [swap] at h
  split at h
  · assumption
  · cases h

theorem create_of_absent {l : Ledger} {key : String} (h : l.read key = none) (value : Bytes) :
    l.create key value = (.created, l.put key value) := by
  rw [create, h]

theorem create_of_present {l : Ledger} {key : String} {stored : Bytes} (h : l.read key = some stored)
    (value : Bytes) : l.create key value = (.occupied, l) := by
  rw [create, h]

theorem swap_of_expected {l : Ledger} {key : String} {expected : Bytes}
    (h : l.read key = some expected) (new : Bytes) :
    l.swap key expected new = (.swapped, l.put key new) := if_pos h

/-! ## Records -/

/-- The record that is stored under `id`, when there is one that can be read. -/
def record? (l : Ledger) (id : String) : Option Record :=
  (l.read id).bind fun bytes => (Record.ofBytes bytes).toOption

/-- The decision that is final in the record under `id`. -/
def frozen? (l : Ledger) (id : String) : Option Decision :=
  (l.record? id).bind Record.frozen

theorem record?_of_read {l : Ledger} {id : String} {bytes : Bytes} {r : Record}
    (h : l.read id = some bytes) (hr : Record.ofBytes bytes = .ok r) : l.record? id = some r := by
  rw [record?, h, Option.bind_some, hr]
  rfl

theorem record?_of_toBytes {l : Ledger} {id : String} {r : Record}
    (h : l.read id = some r.toBytes) : l.record? id = some r :=
  record?_of_read h r.ofBytes_toBytes

theorem record?_congr {l l' : Ledger} {id : String} (h : l'.read id = l.read id) :
    l'.record? id = l.record? id := by
  rw [record?, record?, h]

theorem frozen?_of_record? {l : Ledger} {id : String} {r : Record} (h : l.record? id = some r) :
    l.frozen? id = r.frozen := by
  rw [frozen?, h, Option.bind_some]

/-- Every value that is stored is a well-formed record, in its own form. -/
def WellFormed (l : Ledger) : Prop := ∀ id bytes, l.read id = some bytes →
  ∃ r : Record, Record.ofBytes bytes = .ok r ∧ r.toBytes = bytes ∧ r.WellFormed

namespace WellFormed
variable {l : Ledger} {r : Record}

theorem empty : Ledger.empty.WellFormed := nofun

theorem put (wf : l.WellFormed) (id : String) (hr : r.WellFormed) : (l.put id r.toBytes).WellFormed := by
  intro id' bytes hread
  rw [read_put] at hread
  split at hread
  · cases hread
    exact ⟨r, r.ofBytes_toBytes, rfl, hr⟩
  · exact wf id' bytes hread

theorem record {id : String} {bytes : Bytes} (wf : l.WellFormed) (hread : l.read id = some bytes)
    (hr : Record.ofBytes bytes = .ok r) : r.toBytes = bytes ∧ r.WellFormed := by
  obtain ⟨r', hr', h⟩ := wf id bytes hread
  rw [hr] at hr'
  cases hr'
  exact h

end WellFormed
end TwoPhaseCommit.Ledger
