import TwoPhaseCommit.Proofs.Coordinator.Asks
import TwoPhaseCommit.Proofs.Coordinator.Change
import TwoPhaseCommit.Proofs.Ledger.Lookup
import TwoPhaseCommit.Proofs.Run.Chronicle

/- What a step of a run does to the value that is stored under a key. `Occurs.effect` says it for
   every step, on an unreliable ledger: the value stays, or it is the first one, from a registration,
   or it is a change of the record that was there, by a call that has read that record. -/
namespace TwoPhaseCommit

theorem Faithful.of_ledger {l l' : Ledger} {q : Query} {x : Except Error q.Answer}
    (h : Faithful l ⟨.ledger q, x⟩ l') : x = .ok (l.perform q).1 ∧ l' = (l.perform q).2 := by
  cases h
  exact ⟨rfl, rfl⟩

/-- What a step of call `i` after the steps `h` does to the value stored under `id`. -/
inductive Effect (h : List Moment) (i : Nat) (id : String) : Option Bytes → Option Bytes → Prop where
  | same (stored : Option Bytes) : Effect h i id stored stored
  | registers {c : Coordinator} {n : Int32} {d : Int64} {v : View}
    (underway : progress i h = .underway (.startVoting c id n d) v)
    (admitted : Command.objection (.startVoting c id n d) = none) :
    Effect h i id none (some (Record.new n.toUInt32 d).toBytes)
  /-- The record that is stored is the one that the call has read in its current attempt. -/
  | revises {o : Command} {v : View} {bytes : Bytes} {r r' : Record} {t : Int64} {a : o.Answer}
    (underway : progress i h = .underway o v) (target : o.target = some id)
    (holds : v.Holds bytes r t) (changes : o.change r t = .ok (a, r'))
    (differs : r'.toBytes ≠ bytes) : Effect h i id (some bytes) (some r'.toBytes)

namespace Occurs
variable {C : Conduct} {l₀ : Ledger} {h : List Moment} {m : Moment}

theorem effect_of_perform {i : Nat} {o : Command} {v : View} {q : Query} {l l' : Ledger}
    (underway : progress i h = .underway o v) (asks : o.Asks v (.ledger q))
    (perhaps : l' = l ∨ l' = (l.perform q).2) (id : String) :
    Effect h i id (l.read id) (l'.read id) := by
  rcases perhaps with rfl | rfl
  · exact .same _
  -- of all that a command asks of a ledger only two requests write, both under their own condition
  · cases asks with
    | beat => exact .same _
    | register admitted asks =>
      cases asks with
      | create =>
        rw [Ledger.perform, Ledger.read_create]
        split
        · next hk =>
          obtain ⟨rfl, hn⟩ := hk
          rw [hn]
          exact .registers underway admitted
        · exact .same _
    | revise _ target asks =>
      cases asks with
      | read => exact .same _
      | swap _ holds _ changes differs =>
        rw [Ledger.perform, Ledger.read_swap]
        split
        · next hk =>
          obtain ⟨rfl, hs⟩ := hk
          rw [hs]
          exact .revises underway target holds changes differs
        · exact .same _

/-- A step keeps the value under a key, or stores the first one there, or changes the record there as
    its command says. -/
theorem effect (occurs : Occurs .unreliable l₀ h m) (id : String) :
    Effect h m.call id ((ledgerAfter l₀ h).read id) (m.ledger.read id) := by
  cases occurs with
  | begins | returns => exact .same _
  | hears i underway asks answered =>
    cases answered with
    | faithful answered =>
      cases answered with
      | carriedOut q => exact effect_of_perform underway asks (.inr rfl) id
      | now | pause | log => exact .same _
    | failed e perhaps | denied perhaps => exact effect_of_perform underway asks perhaps id
  | isDropped i underway left =>
    rcases left with rfl | ⟨q, asks, perhaps⟩
    · exact .same _
    · exact effect_of_perform underway asks perhaps id

/-- A step leaves the value in which a record is stored, or it replaces the record by the change that
    a command makes of it. -/
theorem record?_cases (occurs : Occurs .unreliable l₀ h m) {id : String} {r : Record}
    (hr : (ledgerAfter l₀ h).record? id = some r) :
    m.ledger.read id = (ledgerAfter l₀ h).read id ∨
      m.ledger.read id ≠ (ledgerAfter l₀ h).read id ∧
        ∃ o v bytes t a r', progress m.call h = .underway o v ∧ o.target = some id ∧
          v.Holds bytes r t ∧ o.change r t = .ok (a, r') ∧ m.ledger.record? id = some r' := by
  have effect := occurs.effect id
  generalize hs : (ledgerAfter l₀ h).read id = stored at effect
  generalize hs' : m.ledger.read id = stored' at effect
  cases effect with
  | same => exact .inl rfl
  | registers => rw [Ledger.record?, hs] at hr; cases hr
  | @revises o v bytes r₂ r' t a underway target holds changes differs =>
    obtain rfl : r₂ = r := Option.some.inj ((Ledger.record?_of_read hs holds.record).symm.trans hr)
    refine .inr ⟨?_, o, v, bytes, t, a, r', underway, target, holds, changes,
      Ledger.record?_of_toBytes hs'⟩
    rw [ne_eq, Option.some_inj]
    exact differs

/-- What a call reads is what is stored. -/
theorem read_ok (occurs : Occurs .unreliable l₀ h m) {id : String} {stored : Option Bytes}
    (hm : m.move = .hears ⟨.ledger (.read id), .ok stored⟩) :
    (ledgerAfter l₀ h).read id = stored ∧ m.ledger = ledgerAfter l₀ h := by
  cases occurs with
  | begins | returns | isDropped => cases hm
  | hears i _ _ answered =>
    cases hm
    cases answered with
    | faithful answered =>
      obtain ⟨hx, rfl⟩ := answered.of_ledger
      exact ⟨(Except.ok.inj hx).symm, rfl⟩

/-- A swap that is granted finds what it expects, and stores what it should. -/
theorem swapped (occurs : Occurs .unreliable l₀ h m) {id : String} {expected new : Bytes}
    (hm : m.move = .hears ⟨.ledger (.swap id expected new), .ok .swapped⟩) :
    (ledgerAfter l₀ h).read id = some expected ∧ m.ledger.read id = some new := by
  cases occurs with
  | begins | returns | isDropped => cases hm
  | hears i _ _ answered =>
    cases hm
    cases answered with
    | faithful answered =>
      obtain ⟨hx, rfl⟩ := answered.of_ledger
      have hs : (ledgerAfter l₀ h).read id = some expected :=
        Ledger.swap_eq_swapped (Except.ok.inj hx).symm
      refine ⟨hs, ?_⟩
      rw [Ledger.perform, Ledger.read_swap, if_pos ⟨rfl, hs⟩]

/-- A swap that is granted makes a difference. -/
theorem swapped_differs (occurs : Occurs .unreliable l₀ h m) {id : String} {bytes new : Bytes}
    (hm : m.move = .hears ⟨.ledger (.swap id bytes new), .ok .swapped⟩) :
    m.ledger.read id ≠ (ledgerAfter l₀ h).read id := by
  obtain ⟨o, v, -, asks⟩ := occurs.underway_of_hears hm
  obtain ⟨r, r', t, a, -, -, -, differs⟩ := asks.of_swap
  obtain ⟨hread, hnew⟩ := occurs.swapped hm
  rw [hread, hnew]
  exact fun same => differs (Option.some.inj same)

/-- A create that is granted stores the first value. -/
theorem created (occurs : Occurs .unreliable l₀ h m) {id : String} {value : Bytes}
    (hm : m.move = .hears ⟨.ledger (.create id value), .ok .created⟩) :
    (ledgerAfter l₀ h).read id = none ∧ m.ledger.read id = some value := by
  cases occurs with
  | begins | returns | isDropped => cases hm
  | hears i _ _ answered =>
    cases hm
    cases answered with
    | faithful answered =>
      obtain ⟨hx, rfl⟩ := answered.of_ledger
      cases hr : (ledgerAfter l₀ h).read id with
      | some stored =>
        rw [Ledger.perform, Ledger.create_of_present hr] at hx
        cases hx
      | none =>
        refine ⟨rfl, ?_⟩
        rw [Ledger.perform, Ledger.create_of_absent hr, Ledger.read_put, if_pos rfl]

end Occurs
end TwoPhaseCommit
