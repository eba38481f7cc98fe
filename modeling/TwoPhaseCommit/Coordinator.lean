import TwoPhaseCommit.Call
import TwoPhaseCommit.Record.Stored
import TwoPhaseCommit.Retry

/- The coordinator. It registers transactions, takes votes and tells decisions; all it knows is in
   the ledger. A write is made on the condition that the record is still the one that was read, and
   a call whose write loses against another one starts over with the record as it is then, as often
   as the retry policy allows. -/
namespace TwoPhaseCommit

structure Coordinator where
  retry : RetryPolicy

namespace Coordinator

/-- Waits after failed attempt number `attempt` if there is another one to come. -/
def backOff (c : Coordinator) (attempt left : Nat) : Call Unit :=
  if left = 0 then pure () else Call.pause (c.retry.delay attempt)

/-- Ends a call that used up its attempts. -/
def giveUp {α : Type} (c : Coordinator) (activity : Activity) (id : String) :
    Call (Except Error α) := do
  Call.log (.gaveUp activity id c.retry.maxAttempts)
  return .error (Refusal.contention activity id).error

/-- Tries to store a new record, from attempt number `attempt` on, `left` times. -/
def register (c : Coordinator) (id : String) (cohorts : Int32) (deadline : Int64) (value : Bytes) :
    (left attempt : Nat) → Call (Except Error Unit)
  | 0, _ => c.giveUp .startVoting id
  | left+1, attempt => do
    match ← Call.create id value with
    | .ok .created =>
      Call.log (.startedVoting id cohorts deadline)
      return .ok ()
    | .ok .occupied => return .error (Refusal.alreadyRegistered id).error
    | .error ⟨.conflict, reason⟩ =>
      Call.log (.registrationConflict id attempt reason)
      c.backOff attempt left
      c.register id cohorts deadline value left (attempt + 1)
    | .error e => return .error e

/-- Registers a transaction of `cohorts` cohorts, which may vote until second `deadline`. -/
def startVoting (c : Coordinator) (id : String) (cohorts : Int32) (deadline : Int64) :
    Call (Except Error Unit) :=
  if id = "" then return .error Refusal.emptyId.error
  else if cohorts < 1 then return .error (Refusal.cohortCount cohorts).error
  else c.register id cohorts deadline (Record.new cohorts.toUInt32 deadline).toBytes
    c.retry.attempts 1

/-- The bytes stored for a transaction. -/
def fetch (id : String) : Call (Except Error Bytes) := do
  match ← Call.read id with
  | .ok (some bytes) => return .ok bytes
  | .ok none => return .error (Refusal.notRegistered id).error
  | .error e => return .error e

/-- The record stored for a transaction. -/
def readRecord (id : String) : Call (Except Error Record) := do
  match ← fetch id with
  | .ok bytes => return (Record.ofBytes bytes).mapError Record.Flaw.error
  | .error e => return .error e

/-- A change of a record at a given second. It gives an answer and the changed record, or turns the
    call down. -/
abbrev Change (α : Type) := Record → Int64 → Except Refusal (α × Record)

/-- Tries to change the record of a transaction, from attempt number `attempt` on, `left` times. A
    change that changes nothing is not written. -/
def revise {α : Type} (c : Coordinator) (activity : Activity) (id : String) (change : Change α) :
    (left attempt : Nat) → Call (Except Error α)
  | 0, _ => c.giveUp activity id
  | left+1, attempt => do
    match ← fetch id with
    | .error e => return .error e
    | .ok current =>
      match Record.ofBytes current with
      | .error flaw => return .error flaw.error
      | .ok record =>
        match change record (← Call.now) with
        | .error refusal => return .error refusal.error
        | .ok (answer, record) =>
          if record.toBytes = current then return .ok answer
          else do
            match ← Call.swap id current record.toBytes with
            | .ok .swapped => return .ok answer
            | .ok .conflict =>
              Call.log (.writeConflict activity id attempt none)
              c.backOff attempt left
              c.revise activity id change left (attempt + 1)
            | .error ⟨.conflict, reason⟩ =>
              Call.log (.writeConflict activity id attempt (some reason))
              c.backOff attempt left
              c.revise activity id change left (attempt + 1)
            | .error e => return .error e

/-- Changes the record of a transaction. -/
def update {α : Type} (c : Coordinator) (activity : Activity) (id : String) (change : Change α) :
    Call (Except Error α) :=
  c.revise activity id change c.retry.attempts 1

/-- Records the ballot of a cohort. -/
def vote (c : Coordinator) (id : String) (cohort : Int32) (b : Ballot) :
    Call (Except Error VoteEffect) :=
  if id = "" then return .error Refusal.emptyId.error
  else if cohort < 0 then return .error (Refusal.negativeCohort cohort).error
  else do
    match ← c.update .vote id fun r now => r.applyVote cohort.toUInt32 b now with
    | .ok effect =>
      Call.log (.recordedVote b cohort.toUInt32 id effect)
      return .ok effect
    | .error e => return .error e

/-- Tells the decision on a transaction. One that is a commit or an abort is final before it is
    told. -/
def decision (c : Coordinator) (id : String) : Call (Except Error Decision) :=
  if id = "" then return .error Refusal.emptyId.error
  else do
    match ← c.update .resolveDecision id fun r now =>
        let s := r.settle now
        .ok (s.decision, s.record) with
    | .ok d =>
      Call.log (.decided id d)
      return .ok d
    | .error e => return .error e

/-- Tells whether the ledger is alive. -/
def heartbeat : Call (Except Error Bool) := do
  match ← Call.heartbeat with
  | .ok alive => return .ok alive
  | .error ⟨.unavailable, reason⟩ => return .error ⟨.unavailable, reason⟩
  | .error e =>
    Call.log (.heartbeatFailed e)
    return .error ⟨.unavailable, e.display⟩

end Coordinator
end TwoPhaseCommit
