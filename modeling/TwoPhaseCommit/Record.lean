import TwoPhaseCommit.Decision.Compact
import TwoPhaseCommit.Error
import TwoPhaseCommit.SortedMap
import TwoPhaseCommit.Utf8

/- The state of one transaction: who is expected to vote, until when, the latest ballot of every
   cohort, and the decision once it is final. `resolve` reads the decision off; `applyVote` and
   `settle` are the two operations that change a record, and `freeze` is how they make an outcome
   final. Deadlines take effect only when one of them looks at the clock. -/
namespace TwoPhaseCommit

/-- A transaction. The decision is kept as compact text, which says nothing final while the vote is
    open. -/
structure Record where
  /-- How many cohorts are expected to vote. -/
  cohortCount : UInt32
  /-- The second at which the vote closes. -/
  deadline : Int64
  /-- The latest ballot of every cohort that has voted. -/
  votes : SortedMap UInt32 Ballot
  /-- The compact text of the final decision, or some other text while there is none. -/
  decision : String
  length_decision : (Utf8.encode decision).length < UInt64.size
  deriving DecidableEq

/-- What became of a ballot. -/
inductive VoteEffect where
  /-- It was recorded while the vote was open. -/
  | counted
  /-- It was recorded, and came too late to matter. -/
  | ignored
  deriving DecidableEq, Repr

def VoteEffect.name : VoteEffect → String
  | .counted => "Counted"
  | .ignored => "Ignored"

namespace Record

/-- The decision text of a vote that is open. -/
def openText : String := "0"

/-- A transaction on which nobody has voted. -/
def new (cohortCount : UInt32) (deadline : Int64) : Record :=
  ⟨cohortCount, deadline, .empty, openText, by decide⟩

/-- How many cohorts stand for a commit. -/
def commitVotes (r : Record) : Nat := r.votes.values.count .commit

def hasAbortVote (r : Record) : Bool := r.votes.values.contains .abort

/-- The latest ballot of a cohort. -/
def ballot (r : Record) (cohort : UInt32) : Option Ballot := r.votes.get? cohort

/-- The decision that is final, when there is one. -/
def frozen (r : Record) : Option Decision :=
  let d := Decision.decode r.decision
  if d.isTerminal then some d else none

/-- How the vote ends at second `now` by its ballots and its deadline: a full house of commits
    comes first, then any abort, then the deadline. -/
def ruling (r : Record) (now : Int64) : Option Outcome :=
  if r.commitVotes = r.cohortCount.toNat then some .committed
  else if r.hasAbortVote then some .cohortAborted
  else if r.deadline ≤ now then some .timedOut
  else none

/-- The decision at second `now`. A final one stands. -/
def resolve (r : Record) (now : Int64) : Decision :=
  match r.frozen with
  | some d => d
  | none => match r.ruling now with
    | some o => o.decision
    | none => .pending

theorem length_encode_outcome (o : Outcome) : (Utf8.encode o.decision.encode).length < UInt64.size := by
  cases o <;> decide

/-- The record with an outcome made final. -/
def freeze (r : Record) (o : Outcome) : Record :=
  { r with decision := o.decision.encode, length_decision := length_encode_outcome o }

/-- The record with a ballot put down for a cohort, in place of an earlier one. -/
def mark (r : Record) (cohort : UInt32) (b : Ballot) : Record :=
  { r with votes := r.votes.insert cohort b }

/-- The record with the outcome at second `now` made final, if there is one. -/
def freezeAt (r : Record) (now : Int64) : Record :=
  match r.ruling now with
  | some o => r.freeze o
  | none => r

/-- Records a ballot cast at second `now`. It counts while the vote is open, and the one that makes
    a full house of commits ends the vote on the spot. From the deadline on, the outcome is made
    final first, so that a late ballot cannot change it. -/
def applyVote (r : Record) (cohort : UInt32) (b : Ballot) (now : Int64) :
    Except Refusal (VoteEffect × Record) :=
  if r.cohortCount ≤ cohort then .error (.cohortOutOfRange cohort r.cohortCount)
  else if r.frozen.isSome then .ok (.ignored, r.mark cohort b)
  else if r.deadline ≤ now then .ok (.ignored, (r.freezeAt now).mark cohort b)
  else
    let marked := r.mark cohort b
    .ok (.counted, if marked.ruling now = some .committed then marked.freeze .committed else marked)

/-- What settling a record gives: the decision, whether it was made final just now, and the record
    after that. -/
structure Settlement where
  decision : Decision
  changed : Bool
  record : Record

/-- Makes the decision at second `now` final, unless it is open or was final before. -/
def settle (r : Record) (now : Int64) : Settlement :=
  match r.frozen with
  | some d => ⟨d, false, r⟩
  | none => match r.ruling now with
    | some o => ⟨o.decision, true, r.freeze o⟩
    | none => ⟨.pending, false, r⟩

end Record
end TwoPhaseCommit
