import TwoPhaseCommit.Bytes.LittleEndian
import TwoPhaseCommit.Record
import TwoPhaseCommit.Utf8.RoundTrip

/- The stored form of a record: cohort count in 4 bytes, deadline in 8, number of ballots in 8,
   then cohort and ballot in 4 bytes each, then the length of the decision text in 8 and the text.
   `ofBytes` takes the ballots in any order, a later one for a cohort replacing an earlier one, and
   leaves alone what follows the text. -/
namespace TwoPhaseCommit.Record

/-- What is wrong with bytes that hold no record. -/
inductive Flaw where
  /-- The input ends inside a number. -/
  | cutNumber
  /-- The input ends before the decision text does. -/
  | cutText
  /-- A number that stands for no ballot. -/
  | ballot (number : Nat)
  | text (flaw : Utf8.Flaw)
  deriving DecidableEq, Repr

def Flaw.message : Flaw → String
  | .cutNumber => "io error: unexpected end of file"
  | .cutText => "io error: "
  | .ballot number =>
    "invalid value: integer `" ++ toString number ++ "`, expected variant index 0 <= i < 2"
  | .text flaw => "string is not valid utf8: " ++ flaw.message

def Flaw.error (f : Flaw) : Error := ⟨.serialization, f.message⟩

/-- The number of a ballot in the stored form. -/
def storedBallot : Ballot → Nat
  | .commit => 0
  | .abort => 1

def writeVote (v : UInt32 × Ballot) : Bytes :=
  LittleEndian.write 4 v.1.toNat ++ LittleEndian.write 4 (storedBallot v.2)

def toBytes (r : Record) : Bytes :=
  LittleEndian.write 4 r.cohortCount.toNat ++ LittleEndian.write 8 r.deadline.toUInt64.toNat ++
    LittleEndian.write 8 r.votes.size ++ r.votes.entries.flatMap writeVote ++
    LittleEndian.write 8 (Utf8.encode r.decision).length ++ Utf8.encode r.decision

/-- A number of `w` bytes and what follows it. -/
def readNumber (w : Nat) (bs : Bytes) : Except Flaw (Nat × Bytes) :=
  match LittleEndian.read w bs with
  | some p => .ok p
  | none => .error .cutNumber

def readVote (bs : Bytes) : Except Flaw ((UInt32 × Ballot) × Bytes) := do
  let (cohort, bs) ← readNumber 4 bs
  let (number, bs) ← readNumber 4 bs
  match number with
  | 0 => .ok ((UInt32.ofNat cohort, .commit), bs)
  | 1 => .ok ((UInt32.ofNat cohort, .abort), bs)
  | n => .error (.ballot n)

/-- Adds as many votes as there should be to those read so far. -/
def readVotes : Nat → SortedMap UInt32 Ballot → Bytes → Except Flaw (SortedMap UInt32 Ballot × Bytes)
  | 0, votes, bs => .ok (votes, bs)
  | n+1, votes, bs => do
    let (v, bs) ← readVote bs
    readVotes n (votes.insert v.1 v.2) bs

/-- A text of `n` bytes. -/
def readText (n : Nat) (bs : Bytes) : Except Flaw { s : String // (Utf8.encode s).length ≤ n } :=
  if bs.length < n then .error .cutText
  else match h : Utf8.decode (bs.take n) with
    | .ok s => .ok ⟨s, by rw [← Utf8.decode_eq_ok_iff.1 h, List.length_take]; exact Nat.min_le_left ..⟩
    | .error flaw => .error (.text flaw)

def ofBytes (bs : Bytes) : Except Flaw Record := do
  let (cohortCount, bs) ← readNumber 4 bs
  let (deadline, bs) ← readNumber 8 bs
  let (count, bs) ← readNumber 8 bs
  let (votes, bs) ← readVotes count .empty bs
  match h : LittleEndian.read 8 bs with
  | none => .error .cutNumber
  | some (length, bs) => do
    let s ← readText length bs
    .ok ⟨UInt32.ofNat cohortCount, (UInt64.ofNat deadline).toInt64, votes, s.1,
      Nat.lt_of_le_of_lt s.2 (LittleEndian.read_lt h)⟩

end TwoPhaseCommit.Record
