import TwoPhaseCommit.Call
import TwoPhaseCommit.Record.Stored

/- Faults: what can happen to a call on the ledger instead of, or before, its being carried out. -/
namespace TwoPhaseCommit

/-- The operations of a ledger. -/
inductive Operation where
  | create
  | swap
  | read
  | heartbeat
  deriving DecidableEq, Repr

/-- The name of an operation in reports. -/
def Operation.name : Operation → String
  | .create => "create"
  | .swap => "cas"
  | .read => "read"
  | .heartbeat => "heartbeat"

namespace Query

/-- The operation that a call asks for. -/
def operation : Query → Operation
  | .create .. => .create
  | .swap .. => .swap
  | .read _ => .read
  | .heartbeat => .heartbeat

/-- The answer that turns a call down: the key is taken, the value is another one, there is no
    value, the ledger is not alive. -/
def denial : (q : Query) → q.Answer
  | .create .. => CreateOutcome.occupied
  | .swap .. => SwapOutcome.conflict
  | .read _ => (none : Option Bytes)
  | .heartbeat => false

end Query

inductive Fault where
  /-- The call fails. -/
  | fail (error : Error)
  /-- The call is turned down, and nothing is stored. -/
  | deny
  /-- The call is never answered. -/
  | hang
  /-- Somebody stores a value just before. -/
  | put (key : String) (value : Bytes)
  /-- Somebody else's vote is recorded just before. -/
  | vote (id : String) (cohort : UInt32) (ballot : Ballot) (now : Int64)
  /-- Time passes before the call. -/
  | advance (seconds : Int64)
  /-- Nothing happens. -/
  | pass
  deriving DecidableEq, Repr

/-- The ledger after a vote of another coordinator. An id that is not registered is left alone. -/
def Ledger.castVote (l : Ledger) (id : String) (cohort : UInt32) (b : Ballot) (now : Int64) :
    Except Error Ledger :=
  match l.read id with
  | none => .ok l
  | some bytes => match Record.ofBytes bytes with
    | .error flaw => .error flaw.error
    | .ok record => match record.applyVote cohort b now with
      | .error refusal => .error refusal.error
      | .ok (_, record) => .ok (l.put id record.toBytes)

end TwoPhaseCommit
