import TwoPhaseCommit.Proofs.Record.Outcome

/- The record of a vote in which every cohort has at most one say, and in time. It is told by the
   ballots alone (`polled`): with a full house of commits the decision is final, and before that it is
   open, whatever the order in which the ballots come in (`applyVote_polled`). -/
namespace TwoPhaseCommit.Record

/-- The record of `n` cohorts and deadline `d` that holds `votes` and no decision. -/
def unruled (n : UInt32) (d : Int64) (votes : SortedMap UInt32 Ballot) : Record :=
  { new n d with votes := votes }

/-- The record of `n` cohorts and deadline `d` on which `votes` were cast in time. -/
def polled (n : UInt32) (d : Int64) (votes : SortedMap UInt32 Ballot) : Record :=
  if (unruled n d votes).commitVotes = n.toNat then (unruled n d votes).freeze .committed
  else unruled n d votes

variable {n : UInt32} {d : Int64} {votes : SortedMap UInt32 Ballot}

@[simp] theorem cohortCount_polled : (polled n d votes).cohortCount = n := by
  rw [polled]
  split <;> rfl

@[simp] theorem deadline_polled : (polled n d votes).deadline = d := by
  rw [polled]
  split <;> rfl

@[simp] theorem votes_polled : (polled n d votes).votes = votes := by
  rw [polled]
  split <;> rfl

/-- Before the first ballot it is a new record. -/
theorem polled_empty (hn : n ≠ 0) (d : Int64) : polled n d .empty = new n d := by
  have hne : (unruled n d .empty).commitVotes ≠ n.toNat := by
    intro he
    exact hn (UInt32.toNat_inj.1 he.symm)
  rw [polled, if_neg hne]
  rfl

/-- A cohort that has not voted leaves the decision open. -/
theorem polled_of_missing (keys : votes.KeysBelow n.toNat) {k : UInt32} (hk : k < n)
    (missing : votes.get? k = none) : polled n d votes = unruled n d votes := by
  refine if_neg fun full => ?_
  have hb : votes.get? k = some .commit :=
    ballot_of_fullHouse (r := unruled n d votes) keys full (UInt32.lt_iff_toNat_lt.1 hk)
  rw [missing] at hb
  cases hb

/-- The decision is a commit if all cohorts stand for one, and open otherwise. -/
theorem decision_polled (keys : votes.KeysBelow n.toNat) :
    (∀ k < n, votes.get? k = some .commit) ∧
        (polled n d votes).decision = Outcome.committed.decision.encode ∨
      ¬ (∀ k < n, votes.get? k = some .commit) ∧ (polled n d votes).decision = openText := by
  rw [polled]
  split
  · next full =>
    refine .inl ⟨fun k hk => ?_, rfl⟩
    exact ballot_of_fullHouse (r := unruled n d votes) keys full (UInt32.lt_iff_toNat_lt.1 hk)
  · next partly =>
    refine .inr ⟨fun all => partly ?_, rfl⟩
    exact fullHouse_of_ballots (r := unruled n d votes) keys fun k hk =>
      all k (UInt32.lt_iff_toNat_lt.2 hk)

/-- The first ballot of a cohort, cast in time, is counted and joins the others. -/
theorem applyVote_polled (keys : votes.KeysBelow n.toNat) {k : UInt32} (hk : k < n)
    (missing : votes.get? k = none) {t : Int64} (early : t < d) (b : Ballot) :
    (polled n d votes).applyVote k b t = .ok (.counted, polled n d (votes.insert k b)) := by
  have expected : ¬ (unruled n d votes).cohortCount ≤ k := UInt32.not_le.2 hk
  have unfrozen : (unruled n d votes).frozen = none := frozen_new n d
  have inTime : ¬ (unruled n d votes).deadline ≤ t := Int64.not_le.2 early
  have marked : (unruled n d votes).mark k b = unruled n d (votes.insert k b) := rfl
  rw [polled_of_missing keys hk missing, applyVote, if_neg expected, unfrozen, if_neg (by simp),
    if_neg inTime, marked, polled]
  dsimp only
  -- the ballot makes the decision final exactly if it makes a full house
  by_cases full : (unruled n d (votes.insert k b)).commitVotes = n.toNat
  · rw [if_pos (ruling_of_commitVotes t full), if_pos full]
  · rw [if_neg fun ruling => full (commitVotes_of_ruling ruling), if_neg full]

end TwoPhaseCommit.Record
