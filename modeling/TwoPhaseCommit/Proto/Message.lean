import TwoPhaseCommit.Proto.Schema

/- The messages of the adapter: what its clients send and what it answers. -/
namespace TwoPhaseCommit.Proto

/-- A point in time. -/
structure Timestamp where
  seconds : Int64
  nanos : Int32
  deriving DecidableEq, Repr

structure StartVotingRequest where
  transactionId : String
  /-- When the vote closes. Without it the adapter decides. -/
  timeoutTime : Option Timestamp
  cohorts : Int32
  deriving DecidableEq, Repr

structure StartVotingResponse where
  deriving DecidableEq, Repr

structure VoteRequest where
  transactionId : String
  cohortId : Int32
  /-- The number of a ballot, or any other number. -/
  ballot : Int32
  deriving DecidableEq, Repr

structure VoteResponse where
  deriving DecidableEq, Repr

structure GetVotingDecisionRequest where
  transactionId : String
  deriving DecidableEq, Repr

structure GetVotingDecisionResponse where
  /-- The number of a kind of decision, or any other number. -/
  decision : Int32
  reason : String
  deriving DecidableEq, Repr

structure GetHeartBeatRequest where
  deriving DecidableEq, Repr

structure GetHeartBeatResponse where
  isOk : Bool
  deriving DecidableEq, Repr

namespace Timestamp

def schema : Schema Timestamp where
  name := "Timestamp"
  zero := ⟨0, 0⟩
  fields := [
    .scalar 1 "seconds" .int64 (·.seconds) (fun m x => { m with seconds := x }),
    .scalar 2 "nanos" .int32 (·.nanos) (fun m x => { m with nanos := x })]

end Timestamp

namespace StartVotingRequest

def schema : Schema StartVotingRequest where
  name := "StartVotingRequest"
  zero := ⟨"", none, 0⟩
  fields := [
    .scalar 1 "transaction_id" .string (·.transactionId) (fun m x => { m with transactionId := x }),
    .message 2 "timeout_time" Timestamp.schema (·.timeoutTime)
      (fun m x => { m with timeoutTime := some x }),
    .scalar 3 "cohorts" .int32 (·.cohorts) (fun m x => { m with cohorts := x })]

end StartVotingRequest

namespace StartVotingResponse

def schema : Schema StartVotingResponse where
  name := "StartVotingResponse"
  zero := {}
  fields := []

end StartVotingResponse

namespace VoteRequest

def schema : Schema VoteRequest where
  name := "VoteRequest"
  zero := ⟨"", 0, 0⟩
  fields := [
    .scalar 1 "transaction_id" .string (·.transactionId) (fun m x => { m with transactionId := x }),
    .scalar 2 "cohort_id" .int32 (·.cohortId) (fun m x => { m with cohortId := x }),
    .scalar 3 "ballot" .int32 (·.ballot) (fun m x => { m with ballot := x })]

end VoteRequest

namespace VoteResponse

def schema : Schema VoteResponse where
  name := "VoteResponse"
  zero := {}
  fields := []

end VoteResponse

namespace GetVotingDecisionRequest

def schema : Schema GetVotingDecisionRequest where
  name := "GetVotingDecisionRequest"
  zero := ⟨""⟩
  fields := [
    .scalar 1 "transaction_id" .string (·.transactionId) (fun m x => { m with transactionId := x })]

end GetVotingDecisionRequest

namespace GetVotingDecisionResponse

def schema : Schema GetVotingDecisionResponse where
  name := "GetVotingDecisionResponse"
  zero := ⟨0, ""⟩
  fields := [
    .scalar 1 "decision" .int32 (·.decision) (fun m x => { m with decision := x }),
    .scalar 2 "reason" .string (·.reason) (fun m x => { m with reason := x })]

end GetVotingDecisionResponse

namespace GetHeartBeatRequest

def schema : Schema GetHeartBeatRequest where
  name := "GetHeartBeatRequest"
  zero := {}
  fields := []

end GetHeartBeatRequest

namespace GetHeartBeatResponse

def schema : Schema GetHeartBeatResponse where
  name := "GetHeartBeatResponse"
  zero := ⟨false⟩
  fields := [.scalar 1 "is_ok" .bool (·.isOk) (fun m x => { m with isOk := x })]

end GetHeartBeatResponse
end TwoPhaseCommit.Proto
