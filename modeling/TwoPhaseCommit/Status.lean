import TwoPhaseCommit.Error

/- Statuses of remote calls, and how errors travel as statuses. On the way there and back the
   kind of an error survives, except that a conflict and a storage failure arrive as `unavailable`
   (`toError_toStatus`). -/
namespace TwoPhaseCommit

/-- The codes with which a remote call can end, in the order of their numbers from 0. -/
inductive Code where
  | ok
  | cancelled
  | unknown
  | invalidArgument
  | deadlineExceeded
  | notFound
  | alreadyExists
  | permissionDenied
  | resourceExhausted
  | failedPrecondition
  | aborted
  | outOfRange
  | unimplemented
  | internal
  | unavailable
  | dataLoss
  | unauthenticated
  deriving DecidableEq, Repr

namespace Code

/-- Every code, in the order of their numbers. -/
def all : List Code :=
  [.ok, .cancelled, .unknown, .invalidArgument, .deadlineExceeded, .notFound, .alreadyExists,
   .permissionDenied, .resourceExhausted, .failedPrecondition, .aborted, .outOfRange,
   .unimplemented, .internal, .unavailable, .dataLoss, .unauthenticated]

def number (c : Code) : Nat := all.idxOf c

/-- The code with a number. A number of no code says nothing. -/
def ofNumber (n : Int32) : Code := if n < 0 then .unknown else all.getD n.toInt.toNat .unknown

end Code

/-- How a remote call ended. -/
structure Status where
  code : Code
  message : String
  deriving DecidableEq, Repr

/-- The code under which an error of a kind is sent. -/
def ErrorKind.code : ErrorKind → Code
  | .invalidArgument => .invalidArgument
  | .alreadyExists => .alreadyExists
  | .notFound => .notFound
  | .unavailable | .conflict | .storage => .unavailable
  | .serialization => .internal

/-- The kind of error that a code stands for. A call that was cut off or did not get through says
    that the coordinator was out of reach. -/
def Code.errorKind : Code → ErrorKind
  | .invalidArgument | .outOfRange => .invalidArgument
  | .alreadyExists => .alreadyExists
  | .notFound => .notFound
  | .aborted => .conflict
  | .internal | .dataLoss => .serialization
  | _ => .unavailable

def Error.toStatus (e : Error) : Status := ⟨e.kind.code, e.message⟩

def Status.toError (s : Status) : Error := ⟨s.code.errorKind, s.message⟩

theorem Status.toError_toStatus (e : Error) : e.toStatus.toError =
    ⟨if e.kind = .conflict ∨ e.kind = .storage then .unavailable else e.kind, e.message⟩ := by
  obtain ⟨kind, message⟩ := e
  cases kind <;> rfl

end TwoPhaseCommit
