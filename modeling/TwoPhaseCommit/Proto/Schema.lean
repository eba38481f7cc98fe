import TwoPhaseCommit.Proto.Wire
import TwoPhaseCommit.Utf8

/- Messages by their fields. A `Schema` lists the fields of a type of messages; a `Field` says how a
   message writes that field and how a value read for it is merged into a message. Fields with
   their zero value are left out, values that come later replace earlier ones, and fields that the
   schema does not list are passed over. -/
namespace TwoPhaseCommit.Proto

/-- What is wrong with a message, and in which fields, the innermost first. -/
structure Flaw where
  path : List String
  cause : Cause
  deriving DecidableEq, Repr

def Flaw.message (f : Flaw) : String :=
  "failed to decode Protobuf message: " ++ String.join (f.path.map (· ++ ": ")) ++ f.cause.message

/-- The flaw seen from outside a field. -/
def Flaw.inside (f : Flaw) (field : String) : Flaw := ⟨f.path ++ [field], f.cause⟩

/-- A flaw outside all known fields. -/
def Cause.flaw (c : Cause) : Flaw := ⟨[], c⟩

/-- One field of the messages of `M`. -/
structure Field (M : Type) where
  number : Nat
  name : String
  wire : WireType
  /-- The field of a message, with its key, or nothing. -/
  write : M → Bytes
  /-- Reads a value into a message that may hold other messages `depth` deep. -/
  read : (depth : Nat) → M → Bytes → Except Flaw (M × Bytes)

/-- A type of messages and its fields in the order in which they are written. -/
structure Schema (M : Type) where
  name : String
  zero : M
  fields : List (Field M)

namespace Schema
variable {M : Type}

def encode (s : Schema M) (m : M) : Bytes := s.fields.flatMap fun f => f.write m

/-- Reads the value behind a key into a message. -/
def merge (s : Schema M) (depth : Nat) (m : M) (number : Nat) (w : WireType) (bs : Bytes) :
    Except Flaw (M × Bytes) :=
  match s.fields.find? fun f => f.number == number with
  | none =>
    match skip depth number w bs with
    | .ok bs => .ok (m, bs)
    | .error c => .error c.flaw
  | some f =>
    let result := if w = f.wire then f.read depth m bs else .error (Cause.wireType w f.wire).flaw
    result.mapError fun e => e.inside (s.name ++ "." ++ f.name)

/-- Reads fields into a message for as long as more than `limit` bytes are left. Every field takes
    a byte at least, so `fuel` bytes of input are read to their end. -/
def mergeFields (s : Schema M) (depth limit : Nat) :
    (fuel : Nat) → M → Bytes → Except Flaw (M × Bytes)
  | 0, m, bs => .ok (m, bs)
  | fuel+1, m, bs =>
    if bs.length ≤ limit then .ok (m, bs)
    else match readKey bs with
      | .error c => .error c.flaw
      | .ok ((number, w), bs) => do
        let (m, bs) ← s.merge depth m number w bs
        mergeFields s depth limit fuel m bs

/-- How deep messages and groups may be nested. -/
def nesting : Nat := 100

/-- The message that the bytes hold. -/
def decode (s : Schema M) (bs : Bytes) : Except Flaw M := do
  let (m, _) ← s.mergeFields nesting 0 bs.length s.zero bs
  return m

end Schema

/-! ## Kinds of fields -/

/-- A type of values and how one is written and read. -/
structure Scalar (α : Type) where
  wire : WireType
  zero : α
  write : α → Bytes
  read : Bytes → Except Cause (α × Bytes)

namespace Scalar

/-- Whole numbers of 64 bits. A negative one is written as the unsigned number with
    the same bits. -/
def int64 : Scalar Int64 where
  wire := .varint
  zero := 0
  write n := Varint.write n.toUInt64.toNat
  read bs := do
    let (n, bs) ← readVarint bs
    return ((UInt64.ofNat n).toInt64, bs)

/-- Whole numbers of 32 bits, written like those of 64. Only the low half of what is read counts. -/
def int32 : Scalar Int32 where
  wire := .varint
  zero := 0
  write n := Varint.write n.toInt64.toUInt64.toNat
  read bs := do
    let (n, bs) ← readVarint bs
    return ((UInt32.ofNat n).toInt32, bs)

/-- Truth values. Every number but zero is true. -/
def bool : Scalar Bool where
  wire := .varint
  zero := false
  write b := Varint.write (if b then 1 else 0)
  read bs := do
    let (n, bs) ← readVarint bs
    return (n != 0, bs)

def string : Scalar String where
  wire := .lengthDelimited
  zero := ""
  write s := Varint.write (Utf8.encode s).length ++ Utf8.encode s
  read bs := do
    let (text, bs) ← takeDelimited bs
    match Utf8.decode text with
    | .ok s => .ok (s, bs)
    | .error _ => .error .text

end Scalar

namespace Field
variable {M N α : Type}

/-- A field that holds a plain value, written unless it is zero. -/
def scalar [DecidableEq α] (number : Nat) (name : String) (s : Scalar α) (get : M → α)
    (set : M → α → M) : Field M where
  number := number
  name := name
  wire := s.wire
  write m := if get m = s.zero then [] else writeKey number s.wire ++ s.write (get m)
  read _ m bs :=
    match s.read bs with
    | .ok (a, bs) => .ok (set m a, bs)
    | .error c => .error c.flaw

/-- A field that may hold a message, written when it does. Values that come later are merged into
    the message that is there. The fields of the message have to end exactly where its length says;
    the last of them may be read past that end before this is found out. -/
def message (number : Nat) (name : String) (s : Schema N) (get : M → Option N) (set : M → N → M) :
    Field M where
  number := number
  name := name
  wire := .lengthDelimited
  write m :=
    match get m with
    | none => []
    | some n =>
      writeKey number .lengthDelimited ++ Varint.write (s.encode n).length ++ s.encode n
  read depth m bs :=
    if depth = 0 then .error Cause.depth.flaw
    else match readVarint bs with
      | .error c => .error c.flaw
      | .ok (n, bs) =>
        if bs.length < n then .error Cause.underflow.flaw
        else do
          let (inner, rest) ← s.mergeFields (depth - 1) (bs.length - n) bs.length
            ((get m).getD s.zero) bs
          if rest.length = bs.length - n then .ok (set m inner, rest)
          else .error Cause.overrun.flaw

end Field
end TwoPhaseCommit.Proto
