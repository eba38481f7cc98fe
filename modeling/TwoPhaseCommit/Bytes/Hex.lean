import TwoPhaseCommit.Bytes
import TwoPhaseCommit.Numeral

/- Byte strings as text, two hexadecimal digits a byte. -/
namespace TwoPhaseCommit.Hex

def digit (n : Nat) : Char := Nat.digitChar (n % 16)

/-- The two digits of every byte, in lower case. -/
def render (bs : Bytes) : String :=
  String.ofList (bs.flatMap fun b => [digit (b.toNat / 16), digit b.toNat])

def parseChars : List Char → Option Bytes
  | [] => some []
  | [_] => none
  | a :: b :: rest => do
    let high ← Numeral.digit? 16 a
    let low ← Numeral.digit? 16 b
    return UInt8.ofNat (16 * high + low) :: (← parseChars rest)

/-- The bytes that pairs of digits stand for. -/
def parse? (s : String) : Option Bytes := parseChars s.toList

end TwoPhaseCommit.Hex
