import TwoPhaseCommit.Bytes
import TwoPhaseCommit.SortedMap

/- The ledger: byte strings under keys, written only on conditions. `create` stores under a key
   that holds nothing, `swap` replaces a value that is the expected one, and nothing is ever
   removed. A `Query` is one call on a ledger, and `perform` carries it out in one step. -/
namespace TwoPhaseCommit

/-- The answer to a create. -/
inductive CreateOutcome where
  | created
  /-- The key holds a value already. -/
  | occupied
  deriving DecidableEq, Repr

/-- The answer to a swap. -/
inductive SwapOutcome where
  | swapped
  /-- The key holds another value than expected, or none. -/
  | conflict
  deriving DecidableEq, Repr

/-- What is stored under which key. -/
structure Ledger where
  cells : SortedMap String Bytes
  deriving DecidableEq

/-- A call on a ledger. -/
inductive Query where
  | create (key : String) (value : Bytes)
  | swap (key : String) (expected new : Bytes)
  | read (key : String)
  | heartbeat
  deriving DecidableEq, Repr

/-- What a call is answered with. -/
@[reducible] def Query.Answer : Query → Type
  | .create .. => CreateOutcome
  | .swap .. => SwapOutcome
  | .read _ => Option Bytes
  | .heartbeat => Bool

namespace Ledger

/-- The ledger that holds nothing. -/
def empty : Ledger := ⟨.empty⟩

/-- The number of keys that hold a value. -/
def size (l : Ledger) : Nat := l.cells.size

def isEmpty (l : Ledger) : Bool := l.size == 0

def read (l : Ledger) (key : String) : Option Bytes := l.cells.get? key

/-- Stores a value, whatever was there. -/
def put (l : Ledger) (key : String) (value : Bytes) : Ledger := ⟨l.cells.insert key value⟩

def create (l : Ledger) (key : String) (value : Bytes) : CreateOutcome × Ledger :=
  match l.read key with
  | some _ => (.occupied, l)
  | none => (.created, l.put key value)

def swap (l : Ledger) (key : String) (expected new : Bytes) : SwapOutcome × Ledger :=
  if l.read key = some expected then (.swapped, l.put key new) else (.conflict, l)

/-- Carries out a call. -/
def perform (l : Ledger) : (q : Query) → q.Answer × Ledger
  | .create key value => l.create key value
  | .swap key expected new => l.swap key expected new
  | .read key => (l.read key, l)
  | .heartbeat => (true, l)

end Ledger
end TwoPhaseCommit
