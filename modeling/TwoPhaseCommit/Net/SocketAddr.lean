/- Addresses of sockets, and how they are written. An IPv4 address is four numbers with points, an
   IPv6 address eight hexadecimal groups with colons, of which the first of the longest runs of
   two or more zeros is left out. -/
namespace TwoPhaseCommit

structure Ipv4 where
  a : UInt8
  b : UInt8
  c : UInt8
  d : UInt8
  deriving DecidableEq, Repr

/-- An IPv6 address by its eight groups. -/
structure Ipv6 where
  groups : List UInt16
  length_groups : groups.length = 8
  deriving DecidableEq

inductive SocketAddr where
  | v4 (ip : Ipv4) (tcpPort : UInt16)
  /-- An IPv6 address, with the number of the network that it belongs to or zero. -/
  | v6 (ip : Ipv6) (scope : UInt32) (tcpPort : UInt16)
  deriving DecidableEq

def decimalText (n : Nat) : List Char := Nat.toDigits 10 n

namespace Ipv4

def render (ip : Ipv4) : List Char :=
  decimalText ip.a.toNat ++ '.' :: decimalText ip.b.toNat ++ '.' :: decimalText ip.c.toNat ++
    '.' :: decimalText ip.d.toNat

/-- The two groups that stand for the address at the end of an IPv6 address. -/
def toGroups (ip : Ipv4) : List UInt16 :=
  [UInt16.ofNat (ip.a.toNat * 256 + ip.b.toNat), UInt16.ofNat (ip.c.toNat * 256 + ip.d.toNat)]

/-- The address that two groups stand for. -/
def ofGroups (g h : UInt16) : Ipv4 :=
  ⟨UInt8.ofNat (g.toNat / 256), UInt8.ofNat g.toNat, UInt8.ofNat (h.toNat / 256), UInt8.ofNat h.toNat⟩

end Ipv4

namespace Ipv6

/-- The IPv4 address that an address stands for, if it is one of those set aside for that. -/
def mapped? (ip : Ipv6) : Option Ipv4 :=
  match ip.groups with
  | [0, 0, 0, 0, 0, 0xFFFF, g, h] => some (.ofGroups g h)
  | _ => none

/-- Where the first of the longest runs of zeros begins, and how long it is. -/
def longestZeros : List UInt16 → Nat × Nat
  | [] => (0, 0)
  | g :: gs =>
    let here := ((g :: gs).takeWhile (· == 0)).length
    let (start, length) := longestZeros gs
    if length ≤ here then (0, here) else (start + 1, length)

def renderGroups (gs : List UInt16) : List Char :=
  [':'].intercalate (gs.map fun g => Nat.toDigits 16 g.toNat)

def render (ip : Ipv6) : List Char :=
  match ip.mapped? with
  | some v4 => "::ffff:".toList ++ v4.render
  | none =>
    let (start, length) := longestZeros ip.groups
    if 1 < length then
      renderGroups (ip.groups.take start) ++ ':' :: ':' :: renderGroups (ip.groups.drop (start + length))
    else renderGroups ip.groups

/-- The address of these groups, if they are eight. -/
def ofGroups? (gs : List UInt16) : Option Ipv6 :=
  if h : gs.length = 8 then some ⟨gs, h⟩ else none

end Ipv6

namespace SocketAddr

def render : SocketAddr → List Char
  | v4 ip tcpPort => ip.render ++ ':' :: decimalText tcpPort.toNat
  | v6 ip scope tcpPort =>
    '[' :: ip.render ++ (if scope = 0 then [] else '%' :: decimalText scope.toNat) ++
      ']' :: ':' :: decimalText tcpPort.toNat

/-- The address as text. -/
def text (a : SocketAddr) : String := String.ofList a.render

end SocketAddr
end TwoPhaseCommit
