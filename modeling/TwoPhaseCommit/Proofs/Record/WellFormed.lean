import Mathlib.Algebra.Group.Nat.Defs
import TwoPhaseCommit.Proofs.Record.Outcome

/- The records that come of registrations, ballots and questions. They are `WellFormed` from the first
   (`WellFormed.new`), and ballots and questions keep that (`vote`, `settle`). An open vote is no full
   house of commits in them, so a question changes such a record only if the vote is open and comes to
   an abort (`settle_cases`). -/
namespace TwoPhaseCommit.Record

/-- What holds of a record from its registration on. -/
structure WellFormed (r : Record) : Prop where
  populated : 1 ≤ r.cohortCount.toNat
  bounded : r.cohortCount.toNat < 2 ^ 31
  keys : r.votes.KeysBelow r.cohortCount.toNat
  text : r.decision = openText ∨ ∃ o : Outcome, r.decision = o.decision.encode
  incomplete : r.decision = openText → r.commitVotes < r.cohortCount.toNat

theorem encode_outcome_ne_openText (o : Outcome) : o.decision.encode ≠ openText := by
  cases o <;> decide

theorem frozen_of_openText {r : Record} (h : r.decision = openText) : r.frozen = none := by
  have ht : (Decision.decode openText).isTerminal = false := by decide
  simp [frozen, h, ht]

/-- With no more ballots than cohorts, a house of commits that is not full has some commit missing. -/
theorem commitVotes_lt {r : Record} (keys : r.votes.KeysBelow r.cohortCount.toNat)
    (h : r.commitVotes ≠ r.cohortCount.toNat) : r.commitVotes < r.cohortCount.toNat := by
  apply Nat.lt_of_le_of_ne _ h
  calc r.commitVotes ≤ r.votes.size := r.commitVotes_le_size
    _ ≤ r.cohortCount.toNat := keys.size_le

/-- A number of cohorts that is admitted. -/
theorem toNat_toUInt32_of_pos {n : Int32} (hn : 1 ≤ n) :
    1 ≤ n.toUInt32.toNat ∧ n.toUInt32.toNat < 2 ^ 31 := by
  have h : 1 ≤ n.toBitVec.toInt := Int32.le_iff_toInt_le.1 hn
  rw [BitVec.toInt_eq_toNat_cond] at h
  change 1 ≤ n.toBitVec.toNat ∧ n.toBitVec.toNat < 2 ^ 31
  omega

namespace WellFormed
variable {r r' : Record} {k : UInt32} {b : Ballot} {now : Int64} {e : VoteEffect} {s : Settlement}

theorem openText_of_unfrozen (wf : r.WellFormed) (unfrozen : r.frozen = none) :
    r.decision = openText := by
  rcases wf.text with h | ⟨o, ho⟩
  · exact h
  · have frozen : r.frozen = some o.decision := by simp [Record.frozen, ho]
    rw [unfrozen] at frozen
    cases frozen

theorem new {n : Int32} (hn : 1 ≤ n) (d : Int64) : (Record.new n.toUInt32 d).WellFormed where
  populated := (toNat_toUInt32_of_pos hn).1
  bounded := (toNat_toUInt32_of_pos hn).2
  keys := SortedMap.KeysBelow.empty _
  text := .inl rfl
  incomplete _ := (toNat_toUInt32_of_pos hn).1

/-- A ballot of an expected cohort leaves a well-formed record. -/
theorem vote (wf : r.WellFormed) (expected : k < r.cohortCount) (voted : r.Voted k b now e r') :
    r'.WellFormed := by
  obtain ⟨hcount, -, hvotes⟩ := voted.frame
  have keys : r'.votes.KeysBelow r'.cohortCount.toNat := by
    rw [hcount, hvotes]
    exact wf.keys.insert (UInt32.lt_iff_toNat_lt.1 expected) b
  constructor
  case populated => exact hcount ▸ wf.populated
  case bounded => exact hcount ▸ wf.bounded
  case keys => exact keys
  case text =>
    cases voted with
    | late | counted => exact wf.text
    | overdue | last => exact .inr ⟨_, rfl⟩
  case incomplete =>
    intro hopen
    cases voted with
    | late frozen =>
      rw [frozen_of_openText (r := r) hopen] at frozen
      cases frozen
    | overdue | last => exact absurd hopen (encode_outcome_ne_openText _)
    | counted _ _ ruling =>
      exact commitVotes_lt keys fun full => ruling (ruling_of_commitVotes now full)

theorem settle (wf : r.WellFormed) (settled : r.Settled now s) : s.record.WellFormed := by
  cases settled with
  | final | pending => exact wf
  | ruled =>
    exact ⟨wf.populated, wf.bounded, wf.keys, .inr ⟨_, rfl⟩,
      fun hopen => absurd hopen (encode_outcome_ne_openText _)⟩

/-- A question leaves the record, unless the vote is open and comes to an abort. -/
theorem settle_cases (wf : r.WellFormed) (now : Int64) :
    (r.settle now).record = r ∨ r.frozen = none ∧ (r.resolve now).kind = .abort := by
  have settled : r.Settled now (r.settle now) := r.settled now
  rw [← decision_settle]
  generalize r.settle now = s at settled
  cases settled with
  | final | pending => exact .inl rfl
  | @ruled o unfrozen ruling =>
    refine .inr ⟨unfrozen, ?_⟩
    cases o with
    | cohortAborted | timedOut => rfl
    | committed =>
      have hlt := wf.incomplete (wf.openText_of_unfrozen unfrozen)
      have heq := commitVotes_of_ruling ruling
      omega

end WellFormed
end TwoPhaseCommit.Record
