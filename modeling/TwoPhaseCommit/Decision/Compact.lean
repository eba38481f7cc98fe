import TwoPhaseCommit.Decision

/- The compact text of a decision, one digit for its kind and then its reason as it stands, and
   the numbers that stand for kinds and ballots in messages. A decision is read back from its text
   as it was (`decode_encode`). -/
namespace TwoPhaseCommit

namespace DecisionKind

/-- The number of a kind in messages. -/
def number : DecisionKind → Int32
  | .unknown => 0
  | .pending => 1
  | .commit => 2
  | .abort => 3

/-- The kind with a number. A number of no kind says nothing. -/
def ofNumber (n : Int32) : DecisionKind :=
  if n = 1 then .pending else if n = 2 then .commit else if n = 3 then .abort else .unknown

/-- The digit of a kind in compact text. -/
def marker : DecisionKind → Char
  | .unknown => '0'
  | .pending => '1'
  | .commit => '2'
  | .abort => '3'

/-- The kind that a character stands for. A character that marks no kind says nothing. -/
def ofMarker : Char → DecisionKind
  | '1' => .pending
  | '2' => .commit
  | '3' => .abort
  | _ => .unknown

@[simp] theorem ofNumber_number (k : DecisionKind) : ofNumber k.number = k := by
  cases k <;> decide

@[simp] theorem ofMarker_marker (k : DecisionKind) : ofMarker k.marker = k := by
  cases k <;> rfl

end DecisionKind

namespace Ballot

/-- The number of a ballot in messages. -/
def number : Ballot → Int32
  | .commit => 1
  | .abort => 2

/-- The ballot with a number, when there is one. -/
def ofNumber? (n : Int32) : Option Ballot :=
  if n = 1 then some .commit else if n = 2 then some .abort else none

@[simp] theorem ofNumber?_number (b : Ballot) : ofNumber? b.number = some b := by
  cases b <;> decide

end Ballot

namespace Decision

/-- The digit of the kind and the reason. -/
def encode (d : Decision) : String := String.ofList (d.kind.marker :: d.reason.toList)

/-- The decision that a text stands for: the first character tells the kind, the rest is the
    reason. -/
def decode (s : String) : Decision :=
  match s.toList with
  | [] => unknown
  | c :: rest => ⟨.ofMarker c, String.ofList rest⟩

@[simp] theorem decode_encode (d : Decision) : decode d.encode = d := by
  simp [decode, encode]

end Decision
end TwoPhaseCommit
