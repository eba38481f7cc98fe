import TwoPhaseCommit.Decision
import TwoPhaseCommit.Error
import TwoPhaseCommit.Record

/- What the coordinator and its adapter write to their log. -/
namespace TwoPhaseCommit

inductive Level where
  | debug
  | info
  | warn
  deriving DecidableEq, Repr

def Level.name : Level → String
  | .debug => "DEBUG"
  | .info => "INFO"
  | .warn => "WARN"

inductive Event where
  | startedVoting (id : String) (cohorts : Int32) (deadline : Int64)
  | registrationConflict (id : String) (attempt : Nat) (reason : String)
  /-- A write lost a race; the ledger may have given a reason. -/
  | writeConflict (activity : Activity) (id : String) (attempt : Nat) (reason : Option String)
  | gaveUp (activity : Activity) (id : String) (attempts : UInt32)
  | recordedVote (ballot : Ballot) (cohort : UInt32) (id : String) (effect : VoteEffect)
  | decided (id : String) (decision : Decision)
  | heartbeatFailed (error : Error)
  | receivedStart (id : String)
  | receivedVote (id : String) (cohort : Int32)
  | receivedQuestion (id : String)
  deriving DecidableEq, Repr

namespace Event

def level : Event → Level
  | .startedVoting .. => .info
  | .gaveUp .. | .heartbeatFailed _ => .warn
  | _ => .debug

def message : Event → String
  | .startedVoting id cohorts deadline =>
    "Started voting for transaction " ++ id ++ " (" ++ toString cohorts.toInt ++
      " cohorts, deadline " ++ toString deadline.toInt ++ ")"
  | .registrationConflict id attempt reason =>
    "Registration of " ++ id ++ " conflicted on attempt " ++ toString attempt ++ ": " ++ reason
  | .writeConflict activity id attempt none =>
    activity.name ++ " on " ++ id ++ " conflicted on attempt " ++ toString attempt
  | .writeConflict activity id attempt (some reason) =>
    activity.name ++ " on " ++ id ++ " conflicted on attempt " ++ toString attempt ++ ": " ++ reason
  | .gaveUp activity id attempts =>
    "Gave up trying to " ++ activity.name ++ " on " ++ id ++ " after " ++
      toString attempts.toNat ++ " conflicting attempts"
  | .recordedVote ballot cohort id effect =>
    "Recorded vote " ++ ballot.name ++ " from cohort " ++ toString cohort.toNat ++ " on " ++ id ++
      " (" ++ effect.name ++ ")"
  | .decided id decision => "Decision for " ++ id ++ ": " ++ decision.display
  | .heartbeatFailed error => "Ledger heartbeat failed: " ++ error.display
  | .receivedStart id => "Received: StartVoting " ++ id
  | .receivedVote id cohort => "Received: Vote " ++ id ++ " cohort " ++ toString cohort.toInt
  | .receivedQuestion id => "Received: GetVotingDecision " ++ id

/-- The line that the log shows. -/
def line (e : Event) : String := e.level.name ++ " " ++ e.message

end Event
end TwoPhaseCommit
