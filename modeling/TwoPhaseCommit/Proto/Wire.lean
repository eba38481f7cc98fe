import TwoPhaseCommit.Proto.Varint

/- The parts of a message that do not depend on its type: keys, the six ways in which a value can be
   laid out, and how a field that nobody knows is passed over. -/
namespace TwoPhaseCommit.Proto

/-- How the value of a field is laid out. -/
inductive WireType where
  | varint
  | sixtyFourBit
  | lengthDelimited
  | startGroup
  | endGroup
  | thirtyTwoBit
  deriving DecidableEq, Repr

namespace WireType

def number : WireType → Nat
  | .varint => 0
  | .sixtyFourBit => 1
  | .lengthDelimited => 2
  | .startGroup => 3
  | .endGroup => 4
  | .thirtyTwoBit => 5

def ofNumber? : Nat → Option WireType
  | 0 => some .varint
  | 1 => some .sixtyFourBit
  | 2 => some .lengthDelimited
  | 3 => some .startGroup
  | 4 => some .endGroup
  | 5 => some .thirtyTwoBit
  | _ => none

def name : WireType → String
  | .varint => "Varint"
  | .sixtyFourBit => "SixtyFourBit"
  | .lengthDelimited => "LengthDelimited"
  | .startGroup => "StartGroup"
  | .endGroup => "EndGroup"
  | .thirtyTwoBit => "ThirtyTwoBit"

@[simp] theorem ofNumber?_number (w : WireType) : ofNumber? w.number = some w := by
  cases w <;> rfl

theorem number_lt (w : WireType) : w.number < 8 := by
  cases w <;> decide

end WireType

/-- What is wrong with bytes that hold no message. -/
inductive Cause where
  | varint
  | key (value : Nat)
  | wireTypeNumber (number : Nat)
  /-- A field number of zero. -/
  | fieldNumber
  | wireType (actual expected : WireType)
  /-- A length that goes past the end of the input. -/
  | underflow
  /-- The fields of a message inside another one go past its length. -/
  | overrun
  | text
  /-- A group ends that is not the innermost open one. -/
  | endGroup
  | depth
  deriving DecidableEq, Repr

def Cause.message : Cause → String
  | .varint => "invalid varint"
  | .key value => "invalid key value: " ++ toString value
  | .wireTypeNumber number => "invalid wire type value: " ++ toString number
  | .fieldNumber => "invalid tag value: 0"
  | .wireType actual expected =>
    "invalid wire type: " ++ actual.name ++ " (expected " ++ expected.name ++ ")"
  | .underflow => "buffer underflow"
  | .overrun => "delimited length exceeded"
  | .text => "invalid string value: data is not UTF-8 encoded"
  | .endGroup => "unexpected end group tag"
  | .depth => "recursion limit reached"

def readVarint (bs : Bytes) : Except Cause (Nat × Bytes) :=
  match Varint.read bs with
  | some p => .ok p
  | none => .error .varint

/-- The key in front of a value: the number of the field, and the layout in the three low bits. -/
def writeKey (field : Nat) (w : WireType) : Bytes := Varint.write (field * 8 + w.number)

def readKey (bs : Bytes) : Except Cause ((Nat × WireType) × Bytes) := do
  let (key, bs) ← readVarint bs
  if UInt32.size ≤ key then .error (.key key)
  else match WireType.ofNumber? (key % 8) with
    | none => .error (.wireTypeNumber (key % 8))
    | some w => if key / 8 = 0 then .error .fieldNumber else .ok ((key / 8, w), bs)

/-- The first `n` bytes and the rest. -/
def takeBytes (n : Nat) (bs : Bytes) : Except Cause (Bytes × Bytes) :=
  if bs.length < n then .error .underflow else .ok (bs.take n, bs.drop n)

/-- What a length announces, and the rest. -/
def takeDelimited (bs : Bytes) : Except Cause (Bytes × Bytes) := do
  let (n, bs) ← readVarint bs
  takeBytes n bs

/-- Passes over a value that is no group. -/
def skipValue (w : WireType) (bs : Bytes) : Except Cause Bytes :=
  match w with
  | .varint => do return (← readVarint bs).2
  | .sixtyFourBit => do return (← takeBytes 8 bs).2
  | .lengthDelimited => do return (← takeDelimited bs).2
  | .startGroup => .ok bs
  | .endGroup => .error .endGroup
  | .thirtyTwoBit => do return (← takeBytes 4 bs).2

/-- Passes over the rest of the groups whose numbers are in `groups`, the innermost first. Groups
    may be nested `depth` deep; a field that stands as deep as that is not looked at. Every field
    takes a byte at least, so `fuel` bytes of input are read to their end. -/
def skipGroups (depth : Nat) : (fuel : Nat) → (groups : List Nat) → Bytes → Except Cause Bytes
  | _, [], bs => .ok bs
  | 0, _ :: _, _ => .error .varint
  | fuel+1, group :: outer, bs => do
    let ((field, w), bs) ← readKey bs
    match w with
    | .endGroup => if field = group then skipGroups depth fuel outer bs else .error .endGroup
    | .startGroup =>
      if depth ≤ outer.length + 1 then .error .depth
      else skipGroups depth fuel (field :: group :: outer) bs
    | w =>
      if depth ≤ outer.length + 1 then .error .depth
      else do skipGroups depth fuel (group :: outer) (← skipValue w bs)

/-- Passes over the value of a field. -/
def skip (depth : Nat) (field : Nat) (w : WireType) (bs : Bytes) : Except Cause Bytes :=
  if depth = 0 then .error .depth
  else match w with
    | .startGroup => skipGroups depth bs.length [field] bs
    | w => skipValue w bs

end TwoPhaseCommit.Proto
