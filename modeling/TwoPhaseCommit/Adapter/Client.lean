import TwoPhaseCommit.Adapter.Service

/- The calling side of the adapter. A client turns a call into a request message, sends its bytes,
   and reads the bytes that come back. A status becomes an error again, with a note on which call
   failed. -/
namespace TwoPhaseCommit
open Proto

/-- A client by the way in which it sends a request to a method. -/
structure Client where
  send : Method → Bytes → Call (Except Status Bytes)

/-- The note on a call that failed. -/
def Method.failure : Method → String
  | .startVoting => "Failed to start voting"
  | .vote => "Failed to vote"
  | .getVotingDecision => "Failed to get voting decision"
  | .getHeartBeat => "Failed to get heartbeat"

/-- The error that a client reports for a status. -/
def Method.error (m : Method) (s : Status) : Error := s.toError.during m.failure

/-- The status of a request that took longer than the server allows. -/
def Status.timeout : Status := ⟨.cancelled, "Timeout expired"⟩

namespace Client

/-- The client of a service to which every request gets through unchanged, and every answer back. -/
def ofService (s : Service) : Client := ⟨s.handle⟩

/-- Sends a request message and reads the response message. -/
def call {Q R : Type} (c : Client) (m : Method) (requests : Schema Q) (responses : Schema R)
    (q : Q) : Call (Except Error R) := do
  match ← c.send m (requests.encode q) with
  | .error s => return .error (m.error s)
  | .ok body => match responses.decode body with
    | .error flaw => return .error (m.error ⟨.internal, flaw.message⟩)
    | .ok r => return .ok r

/-- Registers a transaction. Without a deadline the server gives the vote its usual time. -/
def startVoting (c : Client) (id : String) (deadline : Option Int64) (cohorts : Int32) :
    Call (Except Error Unit) := do
  let q : StartVotingRequest := ⟨id, deadline.map fun s => ⟨s, 0⟩, cohorts⟩
  return (← c.call .startVoting StartVotingRequest.schema StartVotingResponse.schema q).map fun _ => ()

def vote (c : Client) (id : String) (cohort : Int32) (b : Ballot) : Call (Except Error Unit) := do
  let q : VoteRequest := ⟨id, cohort, b.number⟩
  return (← c.call .vote VoteRequest.schema VoteResponse.schema q).map fun _ => ()

def decision (c : Client) (id : String) : Call (Except Error Decision) := do
  let r ← c.call .getVotingDecision GetVotingDecisionRequest.schema
    GetVotingDecisionResponse.schema ⟨id⟩
  return r.map fun r => ⟨.ofNumber r.decision, r.reason⟩

def heartbeat (c : Client) : Call (Except Error Bool) := do
  let r ← c.call .getHeartBeat GetHeartBeatRequest.schema GetHeartBeatResponse.schema {}
  return r.map fun r => r.isOk

end Client
end TwoPhaseCommit
