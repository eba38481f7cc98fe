import TwoPhaseCommit.Bytes

/- Text as bytes. `encode` writes each character in its shortest form; `decode` reads a byte
   string back, or says where the text stops being well formed: at a byte that no character can
   have in that place (`Flaw.invalid`), or in the middle of a character at the end of the input
   (`Flaw.incomplete`). -/
namespace TwoPhaseCommit.Utf8

/-- The bytes of a text. -/
def encode (s : String) : Bytes := s.toList.flatMap String.utf8EncodeChar

/-- Why bytes are no text. Both cases carry the length `start` of the longest well-formed beginning. -/
inductive Flaw where
  /-- The `length` bytes from `start` begin no character. -/
  | invalid (start length : Nat)
  /-- The input ends inside the character at `start`. -/
  | incomplete (start : Nat)
  deriving DecidableEq, Repr

def Flaw.message : Flaw → String
  | .invalid start length =>
    "invalid utf-8 sequence of " ++ toString length ++ " bytes from index " ++ toString start
  | .incomplete start => "incomplete utf-8 byte sequence from index " ++ toString start

/-- A character of which `seen` bytes are read: `owed` more are due, the next of them between
    `low` and `high`, and `value` is the number that the bytes so far spell. -/
structure Pending where
  owed : Nat
  low : Nat
  high : Nat
  value : Nat
  seen : Nat

/-- What the first byte of a character of several bytes announces. The bounds on the second byte
    leave out longer forms than needed, surrogates, and numbers past the last character. -/
def lead (b : Nat) : Option Pending :=
  if 0xC2 ≤ b ∧ b ≤ 0xDF then some ⟨1, 0x80, 0xBF, b - 0xC0, 1⟩
  else if b = 0xE0 then some ⟨2, 0xA0, 0xBF, 0, 1⟩
  else if b = 0xED then some ⟨2, 0x80, 0x9F, 13, 1⟩
  else if 0xE1 ≤ b ∧ b ≤ 0xEF then some ⟨2, 0x80, 0xBF, b - 0xE0, 1⟩
  else if b = 0xF0 then some ⟨3, 0x90, 0xBF, 0, 1⟩
  else if 0xF1 ≤ b ∧ b ≤ 0xF3 then some ⟨3, 0x80, 0xBF, b - 0xF0, 1⟩
  else if b = 0xF4 then some ⟨3, 0x80, 0x8F, 4, 1⟩
  else none

/-- Reads on from byte number `start`, where a character begins, or from within that character. -/
def scan (start : Nat) : Option Pending → Bytes → Except Flaw (List Char)
  | none, [] => .ok []
  | none, b :: bs =>
    if b.toNat < 0x80 then (Char.ofNat b.toNat :: ·) <$> scan (start + 1) none bs
    else match lead b.toNat with
      | none => .error (.invalid start 1)
      | some p => scan start (some p) bs
  | some _, [] => .error (.incomplete start)
  | some p, b :: bs =>
    if p.low ≤ b.toNat ∧ b.toNat ≤ p.high then
      let value := p.value * 64 + (b.toNat - 0x80)
      if p.owed ≤ 1 then (Char.ofNat value :: ·) <$> scan (start + p.seen + 1) none bs
      else scan start (some ⟨p.owed - 1, 0x80, 0xBF, value, p.seen + 1⟩) bs
    else .error (.invalid start p.seen)

/-- The text that the bytes spell. -/
def decode (bs : Bytes) : Except Flaw String := String.ofList <$> scan 0 none bs

end TwoPhaseCommit.Utf8
