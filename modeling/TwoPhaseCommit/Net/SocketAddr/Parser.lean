import TwoPhaseCommit.Net.SocketAddr
import TwoPhaseCommit.Numeral

/- Reading socket addresses. The readers take what they know from the beginning of a text and leave
   the rest; `SocketAddr.parse?` takes a whole text. An IPv6 address may leave out one run of zeros
   and end in an IPv4 address. -/
namespace TwoPhaseCommit

/-- One of the four numbers of an IPv4 address. -/
def Numeral.octet : Numeral := ⟨10, 256, some 3, false⟩

/-- One of the eight groups of an IPv6 address. -/
def Numeral.group : Numeral := ⟨16, 65536, some 4, true⟩

def Numeral.tcpPort : Numeral := .decimal 65536

def Numeral.scope : Numeral := .decimal 4294967296

/-- What follows a character at the beginning of a text. -/
def expect (c : Char) : List Char → Option (List Char)
  | [] => none
  | d :: rest => if d = c then some rest else none

/-- A colon and the number of 16 bits that ends an address. -/
def readTcpPort (cs : List Char) : Option (UInt16 × List Char) := do
  let (n, cs) ← Numeral.tcpPort.read (← expect ':' cs)
  return (UInt16.ofNat n, cs)

namespace Ipv4

def read (cs : List Char) : Option (Ipv4 × List Char) := do
  let (a, cs) ← Numeral.octet.read cs
  let (b, cs) ← Numeral.octet.read (← expect '.' cs)
  let (c, cs) ← Numeral.octet.read (← expect '.' cs)
  let (d, cs) ← Numeral.octet.read (← expect '.' cs)
  return (⟨UInt8.ofNat a, UInt8.ofNat b, UInt8.ofNat c, UInt8.ofNat d⟩, cs)

end Ipv4

namespace Ipv6

/-- Reads behind a colon, or at once where nothing stands before. -/
def behindColon {α : Type} (first : Bool) (read : List Char → Option α) (cs : List Char) : Option α :=
  if first then read cs else do read (← expect ':' cs)

/-- Groups with colons between them, at most `room`, and whether the last two came as an IPv4
    address. -/
def readGroups : (room : Nat) → (first : Bool) → List Char → List UInt16 × Bool × List Char
  | 0, _, cs => ([], false, cs)
  | room+1, first, cs =>
    match if room = 0 then none else behindColon first Ipv4.read cs with
    | some (ip, rest) => (ip.toGroups, true, rest)
    | none => match behindColon first Numeral.group.read cs with
      | none => ([], false, cs)
      | some (g, rest) =>
        let (gs, embedded, rest) := readGroups room false rest
        (UInt16.ofNat g :: gs, embedded, rest)

def read (cs : List Char) : Option (Ipv6 × List Char) :=
  let (head, embedded, cs) := readGroups 8 true cs
  match ofGroups? head with
  | some ip => some (ip, cs)
  | none =>
    if embedded then none
    else do
      let cs ← expect ':' cs
      let cs ← expect ':' cs
      let (tail, _, cs) := readGroups (7 - head.length) true cs
      let zeros := List.replicate (8 - head.length - tail.length) 0
      return (← ofGroups? (head ++ zeros ++ tail), cs)

end Ipv6

namespace SocketAddr

def readV4 (cs : List Char) : Option (SocketAddr × List Char) := do
  let (ip, cs) ← Ipv4.read cs
  let (tcpPort, cs) ← readTcpPort cs
  return (.v4 ip tcpPort, cs)

/-- A percent sign and the number of a network, or nothing. -/
def readScope (cs : List Char) : UInt32 × List Char :=
  match expect '%' cs with
  | none => (0, cs)
  | some rest => match Numeral.scope.read rest with
    | none => (0, cs)
    | some (n, rest) => (UInt32.ofNat n, rest)

def readV6 (cs : List Char) : Option (SocketAddr × List Char) := do
  let (ip, cs) ← Ipv6.read (← expect '[' cs)
  let (scope, cs) := readScope cs
  let (tcpPort, cs) ← readTcpPort (← expect ']' cs)
  return (.v6 ip scope tcpPort, cs)

/-- The address that is the whole text. -/
def parse? (s : String) : Option SocketAddr :=
  match (readV4 s.toList).or (readV6 s.toList) with
  | some (a, []) => some a
  | _ => none

end SocketAddr
end TwoPhaseCommit
