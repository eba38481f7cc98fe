import TwoPhaseCommit.Coordinator
import TwoPhaseCommit.Proto.Message
import TwoPhaseCommit.Status

/- The serving side of the adapter. Every method of the service takes a request message, calls the
   coordinator, and answers with a response message or a status. `handle` is the service as the
   network sees it: bytes in, bytes out. -/
namespace TwoPhaseCommit
open Proto

structure Service where
  coordinator : Coordinator
  /-- How long a vote is open whose request does not say when it closes. -/
  window : Duration

/-- The methods of the service. -/
inductive Method where
  | startVoting
  | vote
  | getVotingDecision
  | getHeartBeat
  deriving DecidableEq, Repr

/-- The answer to a request, or the status that turns it down. -/
def reply {α β : Type} (f : α → β) : Except Error α → Except Status β
  | .ok a => .ok (f a)
  | .error e => .error e.toStatus

namespace Service

/-- The second at which a vote closes: the one that the request names, or the end of the window that
    opens now. -/
def deadline (s : Service) (q : StartVotingRequest) : Call Int64 :=
  match q.timeoutTime with
  | some t => return t.seconds
  | none => return (← Call.now) + s.window.seconds.toInt64

def startVoting (s : Service) (q : StartVotingRequest) :
    Call (Except Status StartVotingResponse) := do
  Call.log (.receivedStart q.transactionId)
  let deadline ← s.deadline q
  return reply (fun _ => {}) (← s.coordinator.startVoting q.transactionId q.cohorts deadline)

def vote (s : Service) (q : VoteRequest) : Call (Except Status VoteResponse) := do
  Call.log (.receivedVote q.transactionId q.cohortId)
  match Ballot.ofNumber? q.ballot with
  | none => return .error (Refusal.unknownBallot q.ballot).error.toStatus
  | some b => return reply (fun _ => {}) (← s.coordinator.vote q.transactionId q.cohortId b)

def getVotingDecision (s : Service) (q : GetVotingDecisionRequest) :
    Call (Except Status GetVotingDecisionResponse) := do
  Call.log (.receivedQuestion q.transactionId)
  return reply (fun d => ⟨d.kind.number, d.reason⟩) (← s.coordinator.decision q.transactionId)

def getHeartBeat (_ : Service) (_ : GetHeartBeatRequest) :
    Call (Except Status GetHeartBeatResponse) := do
  return reply (fun alive => ⟨alive⟩) (← Coordinator.heartbeat)

/-- Serves a request that comes as bytes. -/
def serve {Q R : Type} (requests : Schema Q) (responses : Schema R)
    (method : Q → Call (Except Status R)) (body : Bytes) : Call (Except Status Bytes) := do
  match requests.decode body with
  | .error flaw => return .error ⟨.internal, flaw.message⟩
  | .ok q => return (← method q).map responses.encode

/-- Serves a request to a method. -/
def handle (s : Service) : Method → Bytes → Call (Except Status Bytes)
  | .startVoting => serve StartVotingRequest.schema StartVotingResponse.schema s.startVoting
  | .vote => serve VoteRequest.schema VoteResponse.schema s.vote
  | .getVotingDecision =>
    serve GetVotingDecisionRequest.schema GetVotingDecisionResponse.schema s.getVotingDecision
  | .getHeartBeat => serve GetHeartBeatRequest.schema GetHeartBeatResponse.schema s.getHeartBeat

end Service
end TwoPhaseCommit
