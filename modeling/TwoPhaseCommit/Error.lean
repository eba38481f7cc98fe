/- Failures. An `Error` has a kind, which callers act on, and a message for people. The
   coordinator's own reasons to turn a call down are the values of `Refusal`, and
   `Refusal.error` gives each its kind and its wording. -/
namespace TwoPhaseCommit

/-- What callers can tell apart about a failure. -/
inductive ErrorKind where
  /-- The arguments are malformed or out of range. -/
  | invalidArgument
  /-- The transaction is registered already. -/
  | alreadyExists
  /-- The transaction is not registered. -/
  | notFound
  /-- The ledger is out of reach, or kept refusing a write. -/
  | unavailable
  /-- A conditional write lost against another one. -/
  | conflict
  /-- The ledger failed. -/
  | storage
  /-- A stored value or a message cannot be read. -/
  | serialization
  deriving DecidableEq, Repr

def ErrorKind.title : ErrorKind → String
  | .invalidArgument => "Invalid argument"
  | .alreadyExists => "Already exists"
  | .notFound => "Not found"
  | .unavailable => "Unavailable"
  | .conflict => "Conflict"
  | .storage => "Storage error"
  | .serialization => "Serialization error"

structure Error where
  kind : ErrorKind
  message : String
  deriving DecidableEq, Repr

/-- The title of the kind, and the message. -/
def Error.display (e : Error) : String := e.kind.title ++ ": " ++ e.message

/-- The error with a note in front on what was going on. -/
def Error.during (e : Error) (activity : String) : Error := ⟨e.kind, activity ++ ": " ++ e.message⟩

/-- The operations that write to the ledger and may have to try again. -/
inductive Activity where
  | startVoting
  | vote
  | resolveDecision
  deriving DecidableEq, Repr

def Activity.name : Activity → String
  | .startVoting => "start voting"
  | .vote => "vote"
  | .resolveDecision => "resolve decision"

/-- Why the coordinator turns a call down. -/
inductive Refusal where
  | emptyId
  | cohortCount (count : Int32)
  | negativeCohort (cohort : Int32)
  | cohortOutOfRange (cohort : UInt32) (count : UInt32)
  | unknownBallot (number : Int32)
  | alreadyRegistered (id : String)
  | notRegistered (id : String)
  | contention (activity : Activity) (id : String)
  deriving DecidableEq, Repr

def Refusal.kind : Refusal → ErrorKind
  | .emptyId | .cohortCount _ | .negativeCohort _ | .cohortOutOfRange .. | .unknownBallot _ =>
    .invalidArgument
  | .alreadyRegistered _ => .alreadyExists
  | .notRegistered _ => .notFound
  | .contention .. => .unavailable

def Refusal.message : Refusal → String
  | .emptyId => "transaction id must not be empty"
  | .cohortCount count => "cohort count must be positive, got " ++ toString count.toInt
  | .negativeCohort cohort => "cohort id must not be negative, got " ++ toString cohort.toInt
  | .cohortOutOfRange cohort count =>
    "cohort id " ++ toString cohort.toNat ++ " out of range [0, " ++ toString count.toNat ++ ")"
  | .unknownBallot number => "unknown ballot value " ++ toString number.toInt
  | .alreadyRegistered id => "transaction " ++ id ++ " is already registered"
  | .notRegistered id => "transaction " ++ id ++ " is not registered"
  | .contention activity id =>
    "could not " ++ activity.name ++ " on " ++ id ++ ": ledger kept conflicting"

def Refusal.error (r : Refusal) : Error := ⟨r.kind, r.message⟩

end TwoPhaseCommit
