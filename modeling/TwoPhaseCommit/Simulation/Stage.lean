import TwoPhaseCommit.Simulation.Fault

/- A stage on which calls are played: a ledger with faults queued up for its operations, and a clock
   that stands still, unless it can be told to move and is. Pauses take no time here; the stage notes which
   pauses were asked for, which operations were called, and what was logged. -/
namespace TwoPhaseCommit

/-- What a stage has seen since it was last told to start over. -/
structure Notes where
  operations : List Operation
  pauses : List Duration
  events : List Event

namespace Notes

def empty : Notes := ⟨[], [], []⟩

/-- How many nanoseconds the pauses last together. -/
def waited (n : Notes) : Nat := n.pauses.foldr (fun d total => d.asPause.nanoseconds + total) 0

end Notes

structure Clock where
  /-- The second that it shows. -/
  now : Int64
  /-- Whether it moves when it is told to. -/
  settable : Bool

namespace Clock

/-- A clock that can be set. -/
def manual (now : Int64) : Clock := ⟨now, true⟩

/-- A clock that shows one second whatever it is told. -/
def steady (now : Int64) : Clock := ⟨now, false⟩

def set (c : Clock) (now : Int64) : Clock := if c.settable then { c with now } else c

end Clock

structure Stage where
  ledger : Ledger
  clock : Clock
  /-- The error with which every call on the ledger fails while it is out of reach. -/
  down : Option Error
  /-- The faults to come, each for the next call of an operation that has none before it. -/
  faults : List (Operation × Fault)
  notes : Notes

namespace Stage

/-- A stage with an empty ledger. -/
def new (clock : Clock) : Stage := ⟨.empty, clock, none, [], .empty⟩

/-- The first fault in a queue for an operation, and the queue without it. -/
def takeFault (op : Operation) : List (Operation × Fault) → Option Fault × List (Operation × Fault)
  | [] => (none, [])
  | (o, f) :: rest =>
    if o = op then (some f, rest)
    else
      let (found, rest) := takeFault op rest
      (found, (o, f) :: rest)

def setClock (s : Stage) (now : Int64) : Stage := { s with clock := s.clock.set now }

def advance (s : Stage) (seconds : Int64) : Stage := s.setClock (s.clock.now + seconds)

def put (s : Stage) (key : String) (value : Bytes) : Stage :=
  { s with ledger := s.ledger.put key value }

/-- Carries a call on the ledger out. -/
def perform (s : Stage) (q : Query) : Option (Except Error q.Answer) × Stage :=
  let (answer, ledger) := s.ledger.perform q
  (some (.ok answer), { s with ledger })

/-- Carries a call on the ledger out under a fault. -/
def suffer (s : Stage) (q : Query) : Fault → Option (Except Error q.Answer) × Stage
  | .fail e => (some (.error e), s)
  | .deny => (some (.ok q.denial), s)
  | .hang => (none, s)
  | .put key value => (s.put key value).perform q
  | .vote id cohort b now => match s.ledger.castVote id cohort b now with
    | .ok ledger => { s with ledger }.perform q
    | .error e => (some (.error e), s)
  | .advance seconds => (s.advance seconds).perform q
  | .pass => s.perform q

/-- Answers a call on the ledger. It is noted first; then it fails if the ledger is out of reach, or
    meets the next fault for its operation. -/
def query (s : Stage) (q : Query) : Option (Except Error q.Answer) × Stage :=
  let s := { s with notes.operations := s.notes.operations ++ [q.operation] }
  match s.down with
  | some e => (some (.error e), s)
  | none => match takeFault q.operation s.faults with
    | (some f, rest) => { s with faults := rest }.suffer q f
    | (none, _) => s.perform q

/-- How a stage answers requests. -/
def environment : Environment Stage where
  respond
    | .ledger q, s => s.query q
    | .now, s => (some s.clock.now, s)
    | .pause d, s => (some (), { s with notes.pauses := s.notes.pauses ++ [d] })
    | .log e, s => (some (), { s with notes.events := s.notes.events ++ [e] })

/-! ## Directions -/

/-- Starts the notes over. -/
def startOver (s : Stage) : Stage := { s with notes := .empty }

/-- Puts the ledger out of reach. -/
def takeDown (s : Stage) (e : Error) : Stage := { s with down := some e }

def bringUp (s : Stage) : Stage := { s with down := none }

/-- Queues up a fault, as often as is asked for. -/
def plan (s : Stage) (op : Operation) (f : Fault) (times : Nat) : Stage :=
  { s with faults := s.faults ++ List.replicate times (op, f) }

/-- Drops the faults to come, and tells how many there were. -/
def clearFaults (s : Stage) : Nat × Stage := (s.faults.length, { s with faults := [] })

end Stage
end TwoPhaseCommit
