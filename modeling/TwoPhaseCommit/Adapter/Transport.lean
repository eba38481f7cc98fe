import TwoPhaseCommit.Adapter.Client
import TwoPhaseCommit.Utf8

/- The way between a client and a service over a network. Messages are carried up to a length, and
   a status is carried in the fields of the head of a response, whose size is limited as well. What
   is within the limits arrives unchanged (`received_of_lt`); of what is not, only a status arrives
   that says so. -/
namespace TwoPhaseCommit

namespace Status

/-- The quotation mark, `#`, `%`, `<`, `>`, `?`, the backtick and the braces. -/
def marks : List UInt8 := [34, 35, 37, 60, 62, 63, 96, 123, 125]

/-- The visible characters of ASCII without the marks. -/
def isPlain (b : UInt8) : Bool := 33 ≤ b && b ≤ 126 && !marks.contains b

/-- The length of a message in the head of a response, where a byte that is not plain is written as
    a percent sign and two digits. -/
def writtenLength (message : String) : Nat :=
  (Utf8.encode message).foldr (fun b n => (if isPlain b then 1 else 3) + n) 0

/-- The fields of the head of a response that carries a status, with the lengths of their values. -/
def head (s : Status) : List (String × Nat) :=
  [(":status", "200".length), ("content-type", "application/grpc".length),
   ("grpc-status", (toString s.code.number).length), ("grpc-message", writtenLength s.message),
   ("date", "Thu, 01 Jan 1970 00:00:00 GMT".length)]

/-- The size of a head. Every field counts for thirty-two more than its name and its value. -/
def headSize (s : Status) : Nat := s.head.foldr (fun f n => f.1.length + f.2 + 32 + n) 0

/-- The size that a head stays below. -/
def headLimit : Nat := 16384

/-- The status that arrives for one that was sent. -/
def received (s : Status) : Status :=
  if s.headSize < headLimit then s else ⟨.internal, "h2 protocol error: http2 error"⟩

theorem received_of_lt {s : Status} (h : s.headSize < headLimit) : s.received = s := if_pos h

end Status

namespace Client

/-- The length of the longest message. -/
def longestMessage : Nat := 4194304

/-- A message as it arrives. -/
def carry (body : Bytes) : Except Status Bytes :=
  if longestMessage < body.length then
    .error ⟨.outOfRange, "Error, decoded message length too large: found " ++ toString body.length ++
      " bytes, the limit is: " ++ toString longestMessage ++ " bytes"⟩
  else .ok body

/-- A client and its service at the two ends of a network. -/
def overNetwork (c : Client) : Client where
  send m body := do
    match carry body with
    | .error status => return .error status
    | .ok body => match ← c.send m body with
      | .error status => return .error status.received
      | .ok answer => return carry answer

end Client
end TwoPhaseCommit
