/- Ballots and decisions. A cohort votes with a `Ballot`; the coordinator answers with a
   `Decision`, a kind and a reason for people to read. The three ways in which a vote can end are
   the values of `Outcome`. -/
namespace TwoPhaseCommit

/-- A cohort's vote. -/
inductive Ballot where
  | commit
  | abort
  deriving DecidableEq, Repr

def Ballot.name : Ballot → String
  | .commit => "COMMIT"
  | .abort => "ABORT"

/-- The class of a decision. `unknown` is no result of a vote: it stands for the absence of
    information. -/
inductive DecisionKind where
  | unknown
  | pending
  | commit
  | abort
  deriving DecidableEq, Repr

def DecisionKind.name : DecisionKind → String
  | .unknown => "UNKNOWN"
  | .pending => "PENDING"
  | .commit => "COMMIT"
  | .abort => "ABORT"

/-- A commit and an abort are never taken back. -/
def DecisionKind.isTerminal : DecisionKind → Bool
  | .commit | .abort => true
  | .unknown | .pending => false

/-- A decision and why it came out so. -/
structure Decision where
  kind : DecisionKind
  reason : String
  deriving DecidableEq, Repr

namespace Decision

def isTerminal (d : Decision) : Bool := d.kind.isTerminal

/-- The kind, and the reason in brackets. -/
def display (d : Decision) : String := d.kind.name ++ " (" ++ d.reason ++ ")"

/-- The answer while votes are missing and there is time left. -/
def pending : Decision := ⟨.pending, "Awaiting votes."⟩

/-- The decision that tells nothing. -/
def unknown : Decision := ⟨.unknown, ""⟩

end Decision

/-- How a vote can end. -/
inductive Outcome where
  | committed
  | cohortAborted
  | timedOut
  deriving DecidableEq, Repr

/-- The decision that reports an outcome. -/
def Outcome.decision : Outcome → Decision
  | .committed => ⟨.commit, "Sufficient vote collected before timeout."⟩
  | .cohortAborted => ⟨.abort, "At least one cohort aborted."⟩
  | .timedOut => ⟨.abort, "Timed out before sufficient votes collected."⟩

theorem Outcome.decision_injective : ∀ {a b : Outcome}, a.decision = b.decision → a = b := by
  intro a b h
  cases a <;> cases b <;> simp_all [decision]

@[simp] theorem Outcome.isTerminal_decision (o : Outcome) : o.decision.isTerminal = true := by
  cases o <;> rfl

end TwoPhaseCommit
